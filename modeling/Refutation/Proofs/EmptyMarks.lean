/-
The mark of the empty clause in traces.

A trace shows clauses as text, and the empty clause as `◻`. That is a text like any other: a proposition may be named so,
and a resolvent that consists of it looks like the empty clause without being one (`mark_without_contradiction`). It comes
about only where `◻` is one of several literals of a clause. When no clause of the input is like that, the mark means what
it says: a resolution shows it exactly when there is a contradiction, once, and right before the end
(`mark_iff_contradiction`).
-/
import Refutation.Proofs.Replays

namespace Refutation

/-- the literal that is written as the empty clause is -/
def Literal.box : Literal := ⟨true, Atom.prop Clause.emptyText⟩

/-- the event shows a resolution whose resolvent is written as the empty clause is -/
def Trace.Event.marksEmpty : Event → Bool
  | .resolution _ _ resolvent => resolvent == Clause.emptyText
  | _ => false

/-- the literal `◻` stands alone -/
def Clause.BoxAlone (c : Clause) : Prop := Literal.box ∈ c.literals → c.isUnit = true

instance (c : Clause) : Decidable c.BoxAlone := inferInstanceAs (Decidable (_ → c.isUnit = true))

/-! ## Clauses that look empty -/

/-- only one clause looks like the empty clause -/
theorem Clause.eq_box {c : Clause} (hne : c.literals ≠ []) (h : c.text = emptyText) : c = ⟨[.box]⟩ := by
  rcases text_eq_emptyText.1 h with rfl | hmimics
  · exact absurd rfl hne
  · exact congrArg Clause.mk hmimics

theorem Literal.eq_box_of_apply {s : Substitution} {k : Literal} (h : k.apply s = .box) : k = .box := by
  obtain ⟨positive, predicate, args⟩ := k
  have hargs : args.map s.apply = [] := congrArg (fun l => l.atom.args) h
  obtain rfl : args = [] := List.map_eq_nil_iff.1 hargs
  exact h

/-- resolution keeps `◻` only from a clause that has more literals -/
theorem box_notMem_resolvent {u : Unifier} {c d : Clause} {r : Resolvent} (hc : c.BoxAlone) (hd : d.BoxAlone)
    (h : r ∈ resolvents u c d) : Literal.box ∉ r.clause.literals := by
  obtain ⟨i, j, l, m, s, hl, hm, -, -, rfl⟩ := mem_resolvents.1 h
  intro hbox
  obtain ⟨k, hk, hkbox⟩ := mem_resolventClause.1 hbox
  rw [Literal.eq_box_of_apply hkbox, sideLiterals, List.mem_append] at hk
  rcases hk with hk | hk
  · rw [eraseIdx_of_isUnit (hc (List.mem_of_mem_eraseIdx hk)) hl] at hk
    cases hk
  · rw [eraseIdx_of_isUnit (hd (List.mem_of_mem_eraseIdx hk)) hm] at hk
    cases hk

/-! ## Traces -/

/-- no event of a replay without the empty clause has its mark -/
theorem Replays.unmarked {u : Unifier} {input cs : List Clause} {es : List Trace.Event}
    (hinput : ∀ c ∈ input, c.Readable ∧ c.BoxAlone) (h : Replays u input cs es) (hempty : Clause.empty ∉ cs) :
    (∀ c ∈ cs, c.Readable ∧ c.BoxAlone) ∧ ∀ e ∈ es, e.marksEmpty = false := by
  induction h with
  | nil => simp
  | @added cs es c _ hc ih =>
    obtain ⟨hcs, hes⟩ := ih fun hmem => hempty (List.mem_append_left _ hmem)
    refine ⟨List.forall_mem_append.2 ⟨hcs, by simpa using hinput c hc⟩, List.forall_mem_append.2 ⟨hes, ?_⟩⟩
    simp [Trace.Event.marksEmpty]
  | @resolution cs es i j c d r _ _ hi hj hr ih =>
    obtain ⟨hcs, hes⟩ := ih fun hmem => hempty (List.mem_append_left _ hmem)
    obtain ⟨hcread, hcalone⟩ := hcs c (List.mem_of_getElem? hi)
    obtain ⟨hdread, hdalone⟩ := hcs d (List.mem_of_getElem? hj)
    have hread : r.clause.Readable := hcread.resolvent hdread hr
    have hbox : Literal.box ∉ r.clause.literals := box_notMem_resolvent hcalone hdalone hr
    have htext : r.clause.text ≠ Clause.emptyText := by
      intro htext
      have hne : r.clause.literals ≠ [] := by
        intro hnil
        have hclause : r.clause = Clause.empty := congrArg Clause.mk hnil
        exact hempty (by simp [hclause])
      rw [Clause.eq_box hne htext] at hbox
      exact hbox List.mem_cons_self
    refine ⟨List.forall_mem_append.2 ⟨hcs, ?_⟩, List.forall_mem_append.2 ⟨hes, ?_⟩⟩
    · simpa using ⟨hread, fun hmem => absurd hmem hbox⟩
    · simpa [Trace.Event.marksEmpty] using htext

namespace Search

variable {settings : Settings} {formulas : List String} {s t : State}

/-- the events so far have no mark if the clauses that they bring are none -/
theorem State.Replayed.unmarked {u : Unifier} {input : List Clause} (hinput : ∀ c ∈ input, c.Readable ∧ c.BoxAlone)
    (h : s.Replayed u input) (hempty : Clause.empty ∉ s.working.clauses) : ∀ e ∈ s.events, e.marksEmpty = false := by
  intro e he
  by_cases hbrings : e.brings = true
  · exact (Replays.unmarked hinput h (by simpa using hempty)).2 e (List.mem_filter.2 ⟨he, hbrings⟩)
  · cases e <;> first | rfl | exact absurd rfl hbrings

/-- the event that says how an attempt ended has no mark -/
theorem marksEmpty_lastEvent (o : Outcome) (maxSteps : Nat) : (o.lastEvent maxSteps).marksEmpty = false := by
  rw [Outcome.lastEvent]
  cases o.termination <;> rfl

/-- up to its last event, if there is a contradiction, and to its end otherwise, a search on formulas shows no mark -/
theorem Ending.marks {τ : Termination} (hinput : ∀ c ∈ Formula.readAll formulas, c.Readable ∧ c.BoxAlone)
    (h : Ending settings (ofFormulas settings formulas) t τ) :
    (τ ≠ .contradiction ∧ ∀ e ∈ t.events, e.marksEmpty = false) ∨
      (τ = .contradiction ∧ ∃ before left right, t.events = before ++ [.resolution left right Clause.emptyText] ∧
        ∀ e ∈ before, e.marksEmpty = false) := by
  have hstart := ofFormulas_replayed settings formulas
  have hcourse : ∀ {s agenda}, Course settings (ofFormulas settings formulas) s agenda →
      ∀ e ∈ s.events, e.marksEmpty = false := by
    intro s agenda hcourse
    exact (hcourse.replays hstart).1.unmarked hinput hcourse.telling.1.nonempty
  cases h with
  | noClauses _ => exact Or.inl ⟨by simp, hstart.unmarked hinput (ofFormulas_telling settings formulas).nonempty⟩
  | emptyInput hempty => exact absurd hempty (ofFormulas_telling settings formulas).nonempty
  | exhausted h _ => exact Or.inl ⟨by simp, hcourse h⟩
  | stopped h _ _ => exact Or.inl ⟨by simp, hcourse h⟩
  | @refuted s x rest h hx =>
    refine Or.inr ⟨rfl, s.events, x.left.text, x.right.text, ?_, hcourse h⟩
    rw [Clause.isEmpty_iff.1 hx]
    exact State.note_events _ _

/-- **The mark of the empty clause means a contradiction** if no clause of the formulas has `◻` as one of several literals:
for all settings, the trace shows a resolution with this mark if and only if the attempt proves its formulas, and then
there is one, right before the contradiction that ends the trace. -/
theorem mark_iff_contradiction (settings : Settings) (formulas : List String)
    (halone : ∀ c ∈ Formula.readAll formulas, c.BoxAlone) :
    let o := (prove settings formulas).outcome
    ((∃ e ∈ o.trace.events, e.marksEmpty = true) ↔ o.proved = true) ∧
      (o.proved = true → ∃ before left right,
        o.trace.events = before ++ [.resolution left right Clause.emptyText, .contradiction] ∧
          ∀ e ∈ before, e.marksEmpty = false) := by
  intro o
  have hinput : ∀ c ∈ Formula.readAll formulas, c.Readable ∧ c.BoxAlone := by
    intro c hc
    obtain ⟨f, -, hf⟩ := Formula.mem_readAll.1 hc
    exact ⟨(Formula.read_readable hf).2, halone c hc⟩
  have hevents : o.trace.events =
      ((ofFormulas settings formulas).search settings).1.events ++ [o.lastEvent settings.maxSteps] := by
    rw [← Trace.events_ofEvents (_ ++ _)]
    exact congrArg Trace.events (State.run_trace _ settings)
  have hproved : o.proved = (((ofFormulas settings formulas).search settings).2 == .contradiction) := rfl
  rcases (ofFormulas_ending settings formulas).marks hinput with ⟨hτ, hnone⟩ | ⟨hτ, before, left, right, hsearch, hnone⟩
  · have hnot : o.proved = false := by
      rw [hproved]
      simpa using hτ
    rw [hnot]
    refine ⟨iff_of_false ?_ (by simp), by simp⟩
    rintro ⟨e, he, hmark⟩
    rw [hevents, List.mem_append, List.mem_singleton] at he
    rcases he with he | rfl
    · rw [hnone e he] at hmark
      cases hmark
    · rw [marksEmpty_lastEvent] at hmark
      cases hmark
  · have hyes : o.proved = true := by
      rw [hproved, hτ]
      rfl
    have hend : o.lastEvent settings.maxSteps = .contradiction := by
      have htermination : o.termination = .contradiction := hτ
      rw [Outcome.lastEvent, htermination]
    have hwhole : o.trace.events = before ++ [.resolution left right Clause.emptyText, .contradiction] := by
      rw [hevents, hsearch, hend, List.append_assoc]
      rfl
    refine ⟨iff_of_true ⟨.resolution left right Clause.emptyText, ?_, ?_⟩ hyes, fun _ => ?_⟩
    · simp [hwhole]
    · simp [Trace.Event.marksEmpty]
    · exact ⟨before, left, right, hwhole, hnone⟩

/-- a proposition that is written as the empty clause does no harm on its own -/
theorem mark_box_alone :
    (prove {} ["◻", "P", "¬P ∨ ¬Q", "Q"]).outcome.proved = true ∧
      ∃ before left right, (prove {} ["◻", "P", "¬P ∨ ¬Q", "Q"]).outcome.trace.events =
        before ++ [.resolution left right Clause.emptyText, .contradiction] ∧ ∀ e ∈ before, e.marksEmpty = false := by
  have hproved : (prove {} ["◻", "P", "¬P ∨ ¬Q", "Q"]).outcome.proved = true := by decide +kernel
  exact ⟨hproved, (mark_iff_contradiction {} _ (by decide +kernel)).2 hproved⟩

/-- a resolvent that consists of the proposition `◻` has the mark, and nothing is proved -/
theorem mark_without_contradiction :
    (prove {} ["◻ ∨ P", "¬P"]).outcome.proved = false ∧
      .resolution "¬P" "◻ ∨ P" Clause.emptyText ∈ (prove {} ["◻ ∨ P", "¬P"]).outcome.trace.events := by
  decide +kernel

end Search

end Refutation
