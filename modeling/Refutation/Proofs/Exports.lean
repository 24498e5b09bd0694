/-
Exports are read back.

A record is written as a value and read from one. `Clause.ofJson?_toJson` and `Outcome.ofDocument?_toJson` say that reading
undoes writing; for an outcome its numbers must fit in words (`Outcome.Fits`), as all numbers of a document must. Such a
number is read as a finite double (`Json.fitsDouble_natural`), so a step can be held while its kind is not known yet. No
part of a record is without a value, so its text is read back too (`exports_read_back`), on one line or spread over lines.
-/
import Refutation.Json.Clause
import Refutation.Json.Outcome
import Refutation.Proofs.JsonTexts

namespace Refutation

/-! ## Parts -/

namespace Json

theorem nat?_ofNat {n : Nat} (h : n < Text.wordBound) : (ofNat n).nat? = some n := by
  rw [ofNat, nat?, if_pos h]

/-- a list is read back when its parts are -/
theorem list?_map {α : Type} {part? : Json → Option α} {toJson : α → Json} {xs : List α}
    (h : ∀ x ∈ xs, part? (toJson x) = some x) : (Json.array (xs.map toJson)).list? part? = some xs := by
  rw [list?]
  induction xs with
  | nil => rfl
  | cons x xs ih =>
    obtain ⟨hx, hxs⟩ := List.forall_mem_cons.1 h
    rw [List.map_cons, List.mapM_cons, hx, ih hxs]
    rfl

/-- rounding adds at most a unit in the last place -/
theorem nearestDouble_le (n : Nat) : Number.nearestDouble n ≤ n + Nat.pow 2 (n.log2 + 1 - 53) := by
  have hbelow : n / Nat.pow 2 (n.log2 + 1 - 53) * Nat.pow 2 (n.log2 + 1 - 53) ≤ n := Nat.div_mul_le_self n _
  simp only [Number.nearestDouble]
  split
  · omega
  · rw [Nat.succ_mul]
    omega

/-- a number that fits in a word is read as a finite double -/
theorem fitsDouble_natural {n : Nat} (h : n < Text.wordBound) : (Number.natural n).fitsDouble = true := by
  have hlog : n.log2 < 64 := by
    rcases Nat.eq_zero_or_pos n with rfl | hn
    · decide
    · exact (Nat.log2_lt hn.ne').2 h
  have hunit : Nat.pow 2 (n.log2 + 1 - 53) ≤ Nat.pow 2 11 := Nat.pow_le_pow_right (by decide) (by omega)
  have hbound : Text.wordBound + Nat.pow 2 11 < Number.doubleBound := by decide +kernel
  have hfits : Number.nearestDouble n * Number.nearestDouble (Nat.pow 10 0) < Number.doubleBound := by
    have hone : Number.nearestDouble (Nat.pow 10 0) = 1 := by decide
    rw [hone, Nat.mul_one]
    calc Number.nearestDouble n ≤ n + Nat.pow 2 (n.log2 + 1 - 53) := nearestDouble_le n
      _ < Text.wordBound + Nat.pow 2 11 := Nat.add_lt_add_of_lt_of_le h hunit
      _ < Number.doubleBound := hbound
  have hlead : Number.leading n = (n, 0) := by rw [Number.leading, if_pos h]
  have hscale : Number.scaledFits n 0 = (n == 0 || decide (0 ≤ Number.maxPower) &&
      decide (Number.nearestDouble n * Number.nearestDouble (Nat.pow 10 0) < Number.doubleBound)) := by
    rw [Number.scaledFits, hlead]
    rfl
  rw [Number.fitsDouble, hscale, decide_eq_true hfits, decide_eq_true (Nat.zero_le _), Bool.and_self, Bool.or_true]

end Json

/-! ## Clauses -/

theorem Term.ofJson?_toJson (t : Term) : Term.ofJson? t.toJson = some t := by
  cases t <;> rfl

theorem Atom.ofJson?_toJson (a : Atom) : Atom.ofJson? a.toJson = some a := by
  have hargs : (Json.array (a.args.map Term.toJson)).list? Term.ofJson? = some a.args :=
    Json.list?_map fun t _ => t.ofJson?_toJson
  simp [Atom.ofJson?, Atom.toJson, Json.fields?, Json.field?, hargs, Json.string?]

theorem Literal.ofJson?_toJson (l : Literal) : Literal.ofJson? l.toJson = some l := by
  simp [Literal.ofJson?, Literal.toJson, Json.fields?, Json.field?, Json.bool?, Atom.ofJson?_toJson]

theorem Clause.ofJson?_toJson (c : Clause) : Clause.ofJson? c.toJson = some c := by
  have hliterals : (Json.array (c.literals.map Literal.toJson)).list? Literal.ofJson? = some c.literals :=
    Json.list?_map fun l _ => l.ofJson?_toJson
  simp [Clause.ofJson?, Clause.toJson, Json.fields?, Json.field?, hliterals]

/-! ## Outcomes -/

namespace Trace

/-- the number that an event shows fits in a word -/
def Event.Fits : Event → Prop
  | .supplyExhausted n | .stepLimitReached n => n < Text.wordBound
  | _ => True

theorem Event.ofMembers?_fields {e : Event} (h : e.Fits) : Event.ofMembers? e.kind e.fields = some e := by
  cases e with
  | supplyExhausted n =>
    simp [Event.kind, Event.fields, Event.ofMembers?, requiredNat?, required?, Json.field?, Json.nat?_ofNat h]
  | stepLimitReached n =>
    simp [Event.kind, Event.fields, Event.ofMembers?, requiredNat?, required?, Json.field?, Json.nat?_ofNat h]
  | _ => simp [Event.kind, Event.fields, Event.ofMembers?, requiredString?, required?, Json.field?, Json.string?]

theorem Event.holdable_fields {e : Event} (h : e.Fits) (room : Nat) :
    (e.fields.all fun m => m.2.holdable room) = true := by
  cases e with
  | supplyExhausted n => simp [Event.fields, Json.holdable, Json.ofNat, Json.fitsDouble_natural h]
  | stepLimitReached n => simp [Event.fields, Json.holdable, Json.ofNat, Json.fitsDouble_natural h]
  | _ => simp [Event.fields, Json.holdable]

/-- the fields of an event are told from the number and the kind of its step -/
theorem Event.filter_fields (e : Event) {name : String} (h : name ∈ ["number", "kind"]) :
    e.fields.filter (·.1 == name) = [] ∧ e.fields.filter (·.1 != name) = e.fields := by
  have hnames : ∀ m ∈ e.fields, m.1 ∉ ["number", "kind"] := by cases e <;> simp [Event.fields]
  have hne : ∀ m ∈ e.fields, m.1 ≠ name := by
    rintro m hm rfl
    exact hnames m hm h
  exact ⟨List.filter_eq_nil_iff.2 fun m hm => by simp [hne m hm], List.filter_eq_self.2 fun m hm => by simp [hne m hm]⟩

/-- a step is read back, however little room there is -/
theorem Step.ofJson?_toJson {s : Step} (hnumber : s.number < Text.wordBound) (hevent : s.event.Fits) (room : Nat) :
    Step.ofJson? room s.toJson = some s := by
  obtain ⟨hnoNumber, hnumberless⟩ := s.event.filter_fields (show "number" ∈ _ by decide)
  obtain ⟨hnoKind, hkindless⟩ := s.event.filter_fields (show "kind" ∈ _ by decide)
  have hfound : requiredNat? (("number", .ofNat s.number) :: ("kind", .string s.event.kind) :: s.event.fields) "number" =
      some s.number := by
    simp [requiredNat?, required?, Json.field?, hnoNumber, Json.nat?_ofNat hnumber]
  have hheld : (("number", Json.ofNat s.number) :: ("kind", .string s.event.kind) :: s.event.fields).filter
      (·.1 != "number") = ("kind", .string s.event.kind) :: s.event.fields := by
    simp [hnumberless]
  have hholdable : ((("kind", .string s.event.kind) :: s.event.fields).all fun m => m.2.holdable room) = true := by
    rw [List.all_cons, Event.holdable_fields hevent, Json.holdable, Bool.and_self]
  have hkind : required? (("kind", .string s.event.kind) :: s.event.fields) "kind" = some (.string s.event.kind) := by
    simp [required?, Json.field?, hnoKind]
  have hfields : (("kind", Json.string s.event.kind) :: s.event.fields).filter (·.1 != "kind") = s.event.fields := by
    simp [hkindless]
  simp [Step.toJson, Step.ofJson?, hfound, hheld, hholdable, hkind, hfields, kindOfJson?, Event.ofMembers?_fields hevent]

end Trace

theorem Termination.ofJson?_name (t : Termination) : Termination.ofJson? (.string t.name) = some t := by
  cases t <;> rfl

/-- the counters fit in a word -/
structure Tally.Fits (t : Tally) : Prop where
  steps : t.steps < Text.wordBound
  clausesKept : t.clausesKept < Text.wordBound
  resolventsGenerated : t.resolventsGenerated < Text.wordBound

theorem Tally.ofJson?_toJson {t : Tally} (h : t.Fits) : Tally.ofJson? t.toJson = some t := by
  simp [Tally.ofJson?, Tally.toJson, Json.fields?, Json.field?, Json.nat?_ofNat h.steps, Json.nat?_ofNat h.clausesKept,
    Json.nat?_ofNat h.resolventsGenerated]

/-- all numbers of an outcome fit in a word -/
structure Outcome.Fits (o : Outcome) : Prop where
  numbers : ∀ s ∈ o.trace.steps, s.number < Text.wordBound
  events : ∀ s ∈ o.trace.steps, s.event.Fits
  tally : o.tally.Fits

theorem Outcome.ofDocument?_toJson {o : Outcome} (h : o.Fits) : Outcome.ofDocument? o.toJson = some o := by
  have htrace (room : Nat) : Trace.ofJson? room o.trace.toJson = some o.trace := by
    rw [Trace.ofJson?, Trace.toJson,
      Json.list?_map fun s hs => Trace.Step.ofJson?_toJson (h.numbers s hs) (h.events s hs) room]
    rfl
  simp [Outcome.ofDocument?, Outcome.toJson, Json.fields?, Json.field?, Json.bool?, Termination.ofJson?_name, htrace,
    Tally.ofJson?_toJson h.tally]

/-! ## Texts -/

theorem Clause.whole_toJson (c : Clause) : c.toJson.Whole := by
  have hterm (t : Term) : t.toJson.Whole := by cases t <;> simp [Term.toJson]
  have hliteral (l : Literal) : l.toJson.Whole := by simp [Literal.toJson, Atom.toJson, hterm]
  simp [Clause.toJson, hliteral]

theorem Outcome.whole_toJson (o : Outcome) : o.toJson.Whole := by
  have hevent (e : Trace.Event) : ∀ m ∈ e.fields, m.2.Whole := by cases e <;> simp [Trace.Event.fields, Json.ofNat]
  have hstep (s : Trace.Step) : s.toJson.Whole := by
    simpa [Trace.Step.toJson, Json.ofNat] using fun name value h => hevent s.event (name, value) h
  simp [Outcome.toJson, Trace.toJson, hstep, Tally.toJson, Json.ofNat]

/-- **Exports are read back.** An outcome whose numbers fit in words is read back from its text on one line and from its
text spread over lines, whatever its strings hold; so is every clause. -/
theorem exports_read_back (o : Outcome) (h : o.Fits) (c : Clause) :
    ((Json.read o.toJson.compact).bind Outcome.ofDocument? = some o ∧
        (Json.read o.toJson.pretty).bind Outcome.ofDocument? = some o) ∧
      (Json.read c.toJson.compact).bind Clause.ofJson? = some c ∧
        (Json.read c.toJson.pretty).bind Clause.ofJson? = some c := by
  rw [o.whole_toJson.read_compact, o.whole_toJson.read_pretty, c.whole_toJson.read_compact, c.whole_toJson.read_pretty,
    Option.bind_some, Option.bind_some, Outcome.ofDocument?_toJson h, Clause.ofJson?_toJson c]
  exact ⟨⟨rfl, rfl⟩, rfl, rfl⟩

/-- an outcome with the largest numbers, and with quotes, a backslash and control characters in its texts -/
def oddOutcome : Outcome where
  proved := false
  termination := .stepLimit
  trace := ⟨[⟨0, .parseFailed "say \"\\\" \x01\x1f\n" "𝔸 → "⟩,
    ⟨Text.wordBound - 1, .stepLimitReached (Text.wordBound - 1)⟩]⟩
  tally := ⟨Text.wordBound - 1, 1, 0⟩

/-- a clause with names that no formula has -/
def oddClause : Clause := ⟨[⟨false, ⟨"\"", [.var "", .const "\t\\u0041"]⟩⟩, ⟨true, ⟨"", []⟩⟩]⟩

theorem odd_exports_read_back :
    oddOutcome.Fits ∧ (Json.read oddOutcome.toJson.pretty).bind Outcome.ofDocument? = some oddOutcome ∧
      (Json.read oddClause.toJson.compact).bind Clause.ofJson? = some oddClause := by
  have h : oddOutcome.Fits := by
    refine ⟨?_, ?_, by decide, by decide, by decide⟩
    · decide
    · intro s hs
      simp only [oddOutcome, List.mem_cons, List.not_mem_nil, or_false] at hs
      rcases hs with rfl | rfl
      · trivial
      · exact Nat.sub_one_lt (by decide)
  have hread := exports_read_back oddOutcome h oddClause
  exact ⟨h, hread.1.2, hread.2.1⟩

end Refutation
