/-
Settings survive their textual forms.

Settings are written as entries, a key and a text for each, and as a document. An entry is the key and the text of an
assignment, and the text spells the value: decimal digits are a numeral of the number that they are written for, and a mode
is written with a name that it is set by (`spelledBy_text`). So the entries of valid settings are set one after the other,
each on valid settings (`setAll_assignments`). Every setting is among them, so nothing is left of the settings before.

A document holds the number as it is and each mode by its name, and is read back field by field (`ofJson?_toJson`). Its text
is read back on one line or spread over lines, since no part of it is without a value.
-/
import Refutation.Json.Settings
import Refutation.Proofs.Exports
import Refutation.Proofs.SettingsUpdates

namespace Refutation

theorem Unifier.ofJson?_name (u : Unifier) : Unifier.ofJson? (.string u.name) = some u := by
  cases u <;> rfl

theorem PairSelection.ofJson?_name (p : PairSelection) : PairSelection.ofJson? (.string p.name) = some p := by
  cases p <;> rfl

theorem Dedup.ofJson?_name (d : Dedup) : Dedup.ofJson? (.string d.name) = some d := by
  cases d <;> rfl

namespace Settings

variable {s c d : Settings}

/-! ## Entries -/

namespace Assignment

/-- the text that the value is written as -/
def text : Assignment → String
  | .maxSteps n => Nat.repr n
  | .unifier u => u.name
  | .pairSelection p => p.name
  | .dedup d => d.name

/-- the key and the text of the value -/
def entry (a : Assignment) : String × String := (a.key, a.text)

end Assignment

/-- decimal digits are a numeral of the number that they are written for -/
theorem numeral_repr (n : Nat) : Text.Numeral (Nat.repr n).toList n := by
  have hdigits : (Nat.repr n).toList = Nat.toDigits 10 n := String.toList_ofList
  refine ⟨[], Nat.toDigits 10 n, Or.inl rfl, Nat.toDigits_ne_nil, ?_, hdigits, Nat.ofDigitChars_ten_toDigits⟩
  intro c hc
  exact Nat.isDigit_of_mem_toDigits (by decide) (by decide) hc

theorem Assignment.spelledBy_text (a : Assignment) : a.SpelledBy a.text := by
  cases a with
  | maxSteps n => exact numeral_repr n
  | unifier u => cases u <;> exact List.mem_cons_self
  | pairSelection p => cases p <;> exact List.mem_cons_self
  | dedup d => cases d <;> exact List.mem_cons_self

/-- an entry of an admissible value makes the assignment, and leaves valid settings -/
theorem set_entry (hs : s.Valid) {a : Assignment} (ha : a.Admissible) :
    s.set a.key a.text = .ok (s.assign a) ∧ (s.assign a).Valid :=
  ⟨(set_eq_ok_iff_denotes hs).2 ⟨a, ⟨rfl, a.spelledBy_text, ha⟩, rfl⟩, (assign_valid hs a).2 ha⟩

/-- entries of admissible values make their assignments one after the other -/
theorem setAll_assignments (hs : s.Valid) {assignments : List Assignment} (h : ∀ a ∈ assignments, a.Admissible) :
    s.setAll (assignments.map Assignment.entry) = .ok (assignments.foldl assign s) ∧ (assignments.foldl assign s).Valid := by
  induction assignments generalizing s with
  | nil => exact ⟨rfl, hs⟩
  | cons a rest ih =>
    obtain ⟨ha, hrest⟩ := List.forall_mem_cons.1 h
    obtain ⟨hset, hvalid⟩ := set_entry hs ha
    obtain ⟨hall, hlast⟩ := ih hvalid hrest
    refine ⟨?_, hlast⟩
    calc s.setAll ((a :: rest).map Assignment.entry)
        = (s.assign a).setAll (rest.map Assignment.entry) := by simp only [List.map_cons, Assignment.entry, setAll, hset]
      _ = .ok (rest.foldl assign (s.assign a)) := hall

/-- the assignments that the settings are made of, in the order of the entries -/
def assignments (c : Settings) : List Assignment :=
  [.maxSteps c.maxSteps, .unifier c.unifier, .pairSelection c.pairSelection, .dedup c.dedup]

theorem entries_eq (c : Settings) : c.entries = c.assignments.map Assignment.entry := rfl

/-- every setting is assigned, so nothing is left of the settings before -/
theorem foldl_assignments (c d : Settings) : c.assignments.foldl assign d = c := rfl

theorem Valid.admissible (hc : c.Valid) : ∀ a ∈ c.assignments, a.Admissible := by
  intro a ha
  simp only [assignments, List.mem_cons, List.not_mem_nil, or_false] at ha
  rcases ha with rfl | rfl | rfl | rfl
  · exact ⟨hc.positive, hc.fits⟩
  all_goals trivial

/-- any number of the entries can be set, from the first on -/
theorem setAll_take_entries (hc : c.Valid) (hd : d.Valid) (k : Nat) :
    d.setAll (c.entries.take k) = .ok ((c.assignments.take k).foldl assign d) ∧
      ((c.assignments.take k).foldl assign d).Valid := by
  rw [entries_eq, ← List.map_take]
  exact setAll_assignments hd fun a ha => hc.admissible a (List.mem_of_mem_take ha)

/-! ## Documents -/

theorem ofJson?_toJson (hfits : c.maxSteps < Text.wordBound) : ofJson? c.toJson = some c := by
  simp [ofJson?, toJson, Json.closedFields?, Json.fields?, Json.field?, withDefault, Json.nat?_ofNat hfits,
    Unifier.ofJson?_name, PairSelection.ofJson?_name, Dedup.ofJson?_name]

theorem whole_toJson (c : Settings) : c.toJson.Whole := by
  simp [toJson, Json.ofNat]

/-- a text that is read as the document of valid settings gives these settings -/
theorem ofDocument_of_read (hc : c.Valid) {text : String} (h : Json.read text = some c.toJson) : ofDocument text = .ok c := by
  rw [ofDocument, h, Option.bind_some, ofJson?_toJson hc.fits]
  exact validate_eq_ok.2 ⟨hc.positive, rfl⟩

/-- **Settings survive both textual forms.** Whatever valid settings one starts with, the entries of valid settings can be set
one after the other, with valid settings after each of them, and end in the settings that they were written for; and the
text of their document, on one line or spread over lines, is read as these settings. -/
theorem textual_forms_read_back (hc : c.Valid) (hd : d.Valid) :
    ((∀ done, done <+: c.entries → ∃ t, d.setAll done = .ok t ∧ t.Valid) ∧ d.setAll c.entries = .ok c) ∧
      ofDocument c.toJson.compact = .ok c ∧ ofDocument c.toJson.pretty = .ok c := by
  refine ⟨⟨?_, ?_⟩, ofDocument_of_read hc c.whole_toJson.read_compact, ofDocument_of_read hc c.whole_toJson.read_pretty⟩
  · intro done hdone
    rw [List.prefix_iff_eq_take.1 hdone]
    exact ⟨_, setAll_take_entries hc hd done.length⟩
  · calc d.setAll c.entries = .ok (c.assignments.foldl assign d) := by
          rw [entries_eq]
          exact (setAll_assignments hd hc.admissible).1
      _ = .ok c := by rw [foldl_assignments]

/-- the largest budget and the modes that are not the default, set on the smallest budget -/
theorem textual_forms_read_back_largest :
    let c : Settings := ⟨18446744073709551615, .complete, .all, .literalSet⟩
    let d : Settings := { maxSteps := 1 }
    c.Valid ∧ d.Valid ∧ d.setAll c.entries = .ok c ∧ ofDocument c.toJson.pretty = .ok c := by
  intro c d
  have hc : c.Valid := ⟨by decide, by decide⟩
  have hd : d.Valid := ⟨by decide, by decide⟩
  obtain ⟨⟨-, hentries⟩, -, hpretty⟩ := textual_forms_read_back hc hd
  exact ⟨hc, hd, hentries, hpretty⟩

end Settings

end Refutation
