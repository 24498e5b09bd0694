/-
Updates of the settings from text.

A value is set by a key and a text. What the two mean is said without the readers: an `Assignment` is one setting with a
value, it has a key, and the texts that spell it are the numerals of a number, with a plus sign or without and with any
zeros in front, or the listed names of a mode. An assignment is admissible unless it is a step budget that is zero or does
not fit in a word.

`set` takes exactly the texts of admissible assignments and makes the assignment. The number reader gives up as soon as
the digits read so far do not fit, and this refuses no number that fits, for more digits never make a number smaller
(`le_ofDigitChars`). Validity is checked only after the value is in place, and that comes to the same as checking the value
(`assign_valid`), since the settings before were valid. A session that is refused an update is left as it was.
-/
import Refutation.Proofs.SessionRuns

namespace Refutation

/-! ## Numerals -/

namespace Text

/-- the text is an optional plus sign and one or more digits, with the value `n` in decimal -/
def Numeral (cs : List Char) (n : Nat) : Prop :=
  ∃ sign digits : List Char, (sign = [] ∨ sign = ['+']) ∧ digits ≠ [] ∧ (∀ c ∈ digits, c.isDigit = true) ∧
    cs = sign ++ digits ∧ Nat.ofDigitChars 10 digits 0 = n

theorem digitValue?_eq (c : Char) : digitValue? c = if c.isDigit then some (c.toNat - '0'.toNat) else none := by
  have hdigit : ('0' ≤ c ∧ c ≤ '9') ↔ c.isDigit = true := by
    simp only [Char.isDigit, Bool.and_eq_true, decide_eq_true_eq]
    rfl
  simp only [digitValue?, hdigit]

/-- more digits never make a number smaller -/
theorem le_ofDigitChars (cs : List Char) (read : Nat) : read ≤ Nat.ofDigitChars 10 cs read := by
  rw [Nat.ofDigitChars_eq_ofDigitChars_zero]
  calc read ≤ 10 ^ cs.length * read := Nat.le_mul_of_pos_left read (by positivity)
    _ ≤ 10 ^ cs.length * read + Nat.ofDigitChars 10 cs 0 := Nat.le_add_right _ _

theorem readDigits_eq_ok {cs : List Char} {read n : Nat} (hread : read < wordBound) :
    readDigits read cs = .ok n ↔
      (∀ c ∈ cs, c.isDigit = true) ∧ Nat.ofDigitChars 10 cs read = n ∧ n < wordBound := by
  induction cs generalizing read with
  | nil =>
    simp only [readDigits, Except.ok.injEq, List.not_mem_nil, false_implies, implies_true, true_and,
      Nat.ofDigitChars_nil]
    exact ⟨fun h => ⟨h, h ▸ hread⟩, And.left⟩
  | cons c rest ih =>
    have hvalue : Nat.ofDigitChars 10 (c :: rest) read =
        Nat.ofDigitChars 10 rest (read * 10 + (c.toNat - '0'.toNat)) := by
      rw [Nat.ofDigitChars_cons, Nat.mul_comm]
    rw [readDigits, digitValue?_eq, hvalue]
    by_cases hdigit : c.isDigit = true
    · simp only [hdigit, if_true, List.forall_mem_cons, true_and]
      split_ifs with hfits
      · exact ih hfits
      · -- the number read so far is too large already, and so is the whole one
        have hle := le_ofDigitChars rest (read * 10 + (c.toNat - '0'.toNat))
        simp only [false_iff]
        rintro ⟨-, rfl, hlt⟩
        exact hfits (hle.trans_lt hlt)
    · simp [hdigit]

theorem readNatural_plus {digits : List Char} (h : digits ≠ []) : readNatural ('+' :: digits) = readDigits 0 digits := by
  cases digits with
  | nil => exact absurd rfl h
  | cons d rest => rfl

theorem readNatural_unsigned {c : Char} (rest : List Char) (h : c ≠ '+') :
    readNatural (c :: rest) = readDigits 0 (c :: rest) := by
  unfold readNatural
  split <;> simp_all

theorem readNatural_eq_ok {cs : List Char} {n : Nat} : readNatural cs = .ok n ↔ Numeral cs n ∧ n < wordBound := by
  have hzero : 0 < wordBound := by decide
  constructor
  · intro h
    cases cs with
    | nil => cases h
    | cons c rest =>
      by_cases hplus : c = '+'
      · subst hplus
        have hrest : rest ≠ [] := by rintro rfl; cases h
        rw [readNatural_plus hrest] at h
        obtain ⟨hdigits, hvalue, hfits⟩ := (readDigits_eq_ok hzero).1 h
        exact ⟨⟨['+'], rest, Or.inr rfl, hrest, hdigits, rfl, hvalue⟩, hfits⟩
      · rw [readNatural_unsigned rest hplus] at h
        obtain ⟨hdigits, hvalue, hfits⟩ := (readDigits_eq_ok hzero).1 h
        exact ⟨⟨[], c :: rest, Or.inl rfl, List.cons_ne_nil c rest, hdigits, rfl, hvalue⟩, hfits⟩
  · rintro ⟨⟨sign, digits, hsign, hne, hdigits, rfl, hvalue⟩, hfits⟩
    have hread := (readDigits_eq_ok hzero).2 ⟨hdigits, hvalue, hfits⟩
    obtain rfl | rfl := hsign
    · obtain ⟨c, rest, rfl⟩ := List.exists_cons_of_ne_nil hne
      have hplus : c ≠ '+' := by
        rintro rfl
        exact absurd (hdigits '+' List.mem_cons_self) (by decide)
      rwa [List.nil_append, readNatural_unsigned rest hplus]
    · rwa [List.singleton_append, readNatural_plus hne]

end Text

/-! ## Names of the modes -/

/-- the names that a unifier is set by -/
def Unifier.spellings : Unifier → List String
  | .singlePass => ["single_pass", "single-pass"]
  | .complete => ["complete"]

/-- the names that a pair selection is set by -/
def PairSelection.spellings : PairSelection → List String
  | .firstMatch => ["first_match", "first-match"]
  | .all => ["all"]

/-- the names that a kind of key is set by -/
def Dedup.spellings : Dedup → List String
  | .canonical => ["canonical"]
  | .literalSet => ["literal_set", "literal-set"]

theorem Unifier.ofName?_eq_some {name : String} {u : Unifier} : ofName? name = some u ↔ name ∈ u.spellings := by
  unfold ofName?
  cases u <;> split <;> simp_all [spellings]

theorem PairSelection.ofName?_eq_some {name : String} {p : PairSelection} :
    ofName? name = some p ↔ name ∈ p.spellings := by
  unfold ofName?
  cases p <;> split <;> simp_all [spellings]

theorem Dedup.ofName?_eq_some {name : String} {d : Dedup} : ofName? name = some d ↔ name ∈ d.spellings := by
  unfold ofName?
  cases d <;> split <;> simp_all [spellings]

namespace Settings

/-! ## Assignments -/

/-- settings are valid when the step budget is positive and fits in a word -/
structure Valid (s : Settings) : Prop where
  positive : 1 ≤ s.maxSteps
  fits : s.maxSteps < Text.wordBound

/-- one setting with a value -/
inductive Assignment where
  | maxSteps (n : Nat)
  | unifier (u : Unifier)
  | pairSelection (p : PairSelection)
  | dedup (d : Dedup)
deriving DecidableEq, Repr

namespace Assignment

/-- the key of the setting -/
def key : Assignment → String
  | .maxSteps _ => "max_steps"
  | .unifier _ => "unifier"
  | .pairSelection _ => "pair_selection"
  | .dedup _ => "dedup"

/-- the text spells the value -/
def SpelledBy : Assignment → String → Prop
  | .maxSteps n, text => Text.Numeral text.toList n
  | .unifier u, text => text ∈ u.spellings
  | .pairSelection p, text => text ∈ p.spellings
  | .dedup d, text => text ∈ d.spellings

/-- a step budget is positive and fits in a word; a mode is admissible as it is -/
def Admissible : Assignment → Prop
  | .maxSteps n => 1 ≤ n ∧ n < Text.wordBound
  | _ => True

end Assignment

/-- the settings with the value of one setting replaced -/
def assign (s : Settings) : Assignment → Settings
  | .maxSteps n => { s with maxSteps := n }
  | .unifier u => { s with unifier := u }
  | .pairSelection p => { s with pairSelection := p }
  | .dedup d => { s with dedup := d }

/-- the key names the setting of the assignment, and the text spells its value, an admissible one -/
structure Denotes (key value : String) (a : Assignment) : Prop where
  named : a.key = key
  spelled : a.SpelledBy value
  admissible : a.Admissible

variable {s t : Settings} {key value : String}

theorem assign_valid (hs : s.Valid) (a : Assignment) : (s.assign a).Valid ↔ a.Admissible := by
  cases a with
  | maxSteps n => exact ⟨fun h => ⟨h.positive, h.fits⟩, fun h => ⟨h.1, h.2⟩⟩
  | unifier u => exact ⟨fun _ => trivial, fun _ => ⟨hs.positive, hs.fits⟩⟩
  | pairSelection p => exact ⟨fun _ => trivial, fun _ => ⟨hs.positive, hs.fits⟩⟩
  | dedup d => exact ⟨fun _ => trivial, fun _ => ⟨hs.positive, hs.fits⟩⟩

/-! ## Readers -/

section Results

variable {ε ε' α β : Type} {result : Except ε α} {refuse : ε → ε'}

theorem mapError_eq_ok {v : α} : result.mapError refuse = .ok v ↔ result = .ok v := by
  cases result <;> simp [Except.mapError]

theorem mapError_map_eq_ok {put : α → β} {w : β} :
    (result.map put).mapError refuse = .ok w ↔ ∃ v, result = .ok v ∧ w = put v := by
  rw [mapError_eq_ok]
  cases result <;> simp [Except.map, eq_comm]

end Results

theorem readMaxSteps_eq_ok {n : Nat} :
    readMaxSteps value = .ok n ↔ Text.Numeral value.toList n ∧ n < Text.wordBound := by
  rw [readMaxSteps, mapError_eq_ok, Text.readNatural_eq_ok]

theorem readUnifier_eq_ok {u : Unifier} : readUnifier value = .ok u ↔ value ∈ u.spellings := by
  rw [readUnifier, ← Unifier.ofName?_eq_some]
  cases Unifier.ofName? value <;> simp

theorem readPairSelection_eq_ok {p : PairSelection} : readPairSelection value = .ok p ↔ value ∈ p.spellings := by
  rw [readPairSelection, ← PairSelection.ofName?_eq_some]
  cases PairSelection.ofName? value <;> simp

theorem readDedup_eq_ok {d : Dedup} : readDedup value = .ok d ↔ value ∈ d.spellings := by
  rw [readDedup, ← Dedup.ofName?_eq_some]
  cases Dedup.ofName? value <;> simp

/-! ## Updates -/

/-- an update without the check puts in place what the texts spell, if it fits -/
theorem update_eq_ok (hs : s.Valid) :
    s.update key value = .ok t ↔
      t.maxSteps < Text.wordBound ∧ ∃ a : Assignment, a.key = key ∧ a.SpelledBy value ∧ t = s.assign a := by
  constructor
  · intro h
    unfold update at h
    split at h
    · obtain ⟨n, hread, rfl⟩ := mapError_map_eq_ok.1 h
      obtain ⟨hnumeral, hfits⟩ := readMaxSteps_eq_ok.1 hread
      exact ⟨hfits, .maxSteps n, rfl, hnumeral, rfl⟩
    · obtain ⟨u, hread, rfl⟩ := mapError_map_eq_ok.1 h
      exact ⟨hs.fits, .unifier u, rfl, readUnifier_eq_ok.1 hread, rfl⟩
    · obtain ⟨p, hread, rfl⟩ := mapError_map_eq_ok.1 h
      exact ⟨hs.fits, .pairSelection p, rfl, readPairSelection_eq_ok.1 hread, rfl⟩
    · obtain ⟨d, hread, rfl⟩ := mapError_map_eq_ok.1 h
      exact ⟨hs.fits, .dedup d, rfl, readDedup_eq_ok.1 hread, rfl⟩
    · cases h
  · rintro ⟨hfits, a, rfl, hspelled, rfl⟩
    cases a with
    | maxSteps n => exact mapError_map_eq_ok.2 ⟨n, readMaxSteps_eq_ok.2 ⟨hspelled, hfits⟩, rfl⟩
    | unifier u => exact mapError_map_eq_ok.2 ⟨u, readUnifier_eq_ok.2 hspelled, rfl⟩
    | pairSelection p => exact mapError_map_eq_ok.2 ⟨p, readPairSelection_eq_ok.2 hspelled, rfl⟩
    | dedup d => exact mapError_map_eq_ok.2 ⟨d, readDedup_eq_ok.2 hspelled, rfl⟩

theorem set_eq_ok_iff_denotes (hs : s.Valid) : s.set key value = .ok t ↔ ∃ a, Denotes key value a ∧ t = s.assign a := by
  rw [set_eq_ok, update_eq_ok hs]
  constructor
  · rintro ⟨⟨hfits, a, hkey, hspelled, rfl⟩, hpositive⟩
    exact ⟨a, ⟨hkey, hspelled, (assign_valid hs a).1 ⟨hpositive, hfits⟩⟩, rfl⟩
  · rintro ⟨a, hdenotes, rfl⟩
    have hvalid := (assign_valid hs a).2 hdenotes.admissible
    exact ⟨⟨hvalid.fits, a, hdenotes.named, hdenotes.spelled, rfl⟩, hvalid.positive⟩

/-- **Exact updates.** From valid settings, setting a value succeeds exactly when the key and the text denote an admissible
assignment; what it gives is that assignment made, which is valid; and a session either has just this assignment made on its
settings or is refused and left as it was. -/
theorem set_exact (hs : s.Valid) (key value : String) :
    ((∃ t, s.set key value = .ok t) ↔ ∃ a, Denotes key value a) ∧
      (∀ a, Denotes key value a → s.set key value = .ok (s.assign a) ∧ (s.assign a).Valid) ∧
      ∀ session : Session, session.settings = s →
        (∃ a, Denotes key value a ∧
            session.setOption key value = (.ok (.optionSet key value), { session with settings := s.assign a })) ∨
          (¬ ∃ a, Denotes key value a) ∧
            ∃ e, s.set key value = .error e ∧ session.setOption key value = (.error (.settings e), session) := by
  have hsucceeds : (∃ t, s.set key value = .ok t) ↔ ∃ a, Denotes key value a := by
    constructor
    · rintro ⟨t, ht⟩
      obtain ⟨a, hdenotes, -⟩ := (set_eq_ok_iff_denotes hs).1 ht
      exact ⟨a, hdenotes⟩
    · rintro ⟨a, hdenotes⟩
      exact ⟨s.assign a, (set_eq_ok_iff_denotes hs).2 ⟨a, hdenotes, rfl⟩⟩
  refine ⟨hsucceeds, ?_, ?_⟩
  · intro a hdenotes
    exact ⟨(set_eq_ok_iff_denotes hs).2 ⟨a, hdenotes, rfl⟩, (assign_valid hs a).2 hdenotes.admissible⟩
  · rintro session rfl
    rw [Session.setOption]
    cases hset : session.settings.set key value with
    | ok t =>
      obtain ⟨a, hdenotes, rfl⟩ := (set_eq_ok_iff_denotes hs).1 hset
      exact Or.inl ⟨a, hdenotes, rfl⟩
    | error e =>
      refine Or.inr ⟨?_, e, rfl, rfl⟩
      rw [← hsucceeds, hset]
      rintro ⟨t, ht⟩
      cases ht

/-- the largest budget, written with a sign and zeros in front, is set, and the number after it is refused -/
theorem set_exact_largest :
    ({} : Settings).Valid ∧
      Denotes "max_steps" "+0018446744073709551615" (.maxSteps 18446744073709551615) ∧
      ({} : Settings).set "max_steps" "+0018446744073709551615" = .ok { maxSteps := 18446744073709551615 } ∧
      ¬ ∃ a, Denotes "max_steps" "18446744073709551616" a := by
  have hs : ({} : Settings).Valid := ⟨by decide, by decide⟩
  have hdenotes : Denotes "max_steps" "+0018446744073709551615" (.maxSteps 18446744073709551615) :=
    ⟨rfl, ⟨['+'], "0018446744073709551615".toList, Or.inr rfl, by decide, List.all_eq_true.1 (by decide), by decide,
      by decide⟩, by decide, by decide⟩
  have hrefused : ({} : Settings).set "max_steps" "18446744073709551616" =
      .error (.invalidValue "max_steps" "18446744073709551616" (.notNatural .tooLarge)) := by decide +kernel
  refine ⟨hs, hdenotes, ((set_exact hs _ _).2.1 _ hdenotes).1, ?_⟩
  rw [← (set_exact hs _ _).1, hrefused]
  rintro ⟨t, ht⟩
  cases ht

end Settings

end Refutation
