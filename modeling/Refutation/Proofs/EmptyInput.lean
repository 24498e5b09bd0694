/-
Empty clauses in the input.

The empty clause refutes the input that it stands in, and a search that finds it among its clauses ends with a
contradiction before the first turn. But it looks at the clauses that are stored, and of the clauses with one key only the
first is. The empty clause shares its key with a few others: under the name `◻` a proposition has its text, and without a
name a proposition has its set of texts (`Dedup.Mimics`). An empty clause after one of these is dropped as known, and the
contradiction is missed (`empty_input_missed`). In all other cases it is found (`contradiction_at_once_iff`).
-/
import Refutation.Proofs.Courses
import Refutation.Proofs.UniqueText

namespace Refutation

/-- the empty clause is stored if it comes before all clauses that mimic it -/
theorem WorkingSet.empty_mem_insertAll {k : Dedup} {cs : List Clause} :
    Clause.empty ∈ ((WorkingSet.empty k).insertAll cs).clauses ↔
      ∃ before after, cs = before ++ Clause.empty :: after ∧ ∀ c ∈ before, ¬ k.Mimics c := by
  rw [mem_insertAll_iff]
  constructor
  · intro hfind
    obtain ⟨-, before, after, hcs, hbefore⟩ := List.find?_eq_some_iff_append.1 hfind
    refine ⟨before, after, hcs, fun c hc hmimics => ?_⟩
    have hkey := hbefore c hc
    rw [Dedup.key_eq_empty.2 (Or.inr hmimics)] at hkey
    simp at hkey
  · rintro ⟨before, after, rfl, hbefore⟩
    rw [List.find?_append]
    cases hfind : before.find? fun c => k.key c == k.key Clause.empty with
    | none => simp
    | some c =>
      -- an earlier clause with the key is an empty clause too
      have hkey : k.key c = k.key Clause.empty := by simpa using List.find?_some hfind
      rcases Dedup.key_eq_empty.1 hkey with rfl | hmimics
      · rfl
      · exact absurd hmimics (hbefore c (List.mem_of_find?_eq_some hfind))

namespace Search

variable {settings : Settings} {input s : State} {agenda : List Inference}

/-- inferences are made in turns -/
theorem Course.steps_pos (h : Course settings input s agenda) (hne : agenda ≠ []) : 0 < s.steps := by
  induction h with
  | start => exact absurd rfl hne
  | turn _ _ _ _ _ => exact Nat.succ_pos _
  | infer _ hx ih =>
    rw [State.absorb_steps hx]
    exact ih (by simp)

/-- a search that ends with a contradiction before the first turn has the empty clause in its input -/
theorem Ending.empty_mem {t : State} (h : Ending settings input t .contradiction) (hsteps : t.steps = 0) :
    Clause.empty ∈ input.working.clauses := by
  cases h with
  | emptyInput hempty => exact hempty
  | @refuted s x rest hcourse hx =>
    have hpos := hcourse.steps_pos (by simp)
    have hsame : (s.count.note (.resolved x.left x.right x.resolvent)).steps = s.steps := rfl
    omega

theorem State.search_of_empty_mem (settings : Settings) (h : Clause.empty ∈ input.working.clauses) :
    input.search settings = (input.noteConflicts, .contradiction) := by
  rcases hsearch : input.search settings with ⟨t, τ⟩
  rcases search_cases hsearch with ⟨-, hnone, -⟩ | ⟨rfl, -, rfl⟩ | ⟨hnot, -⟩
  · rw [WorkingSet.isEmpty, Array.isEmpty_iff] at hnone
    simp [hnone] at h
  · rfl
  · exact absurd h hnot

/-- **When an empty clause in the input is a contradiction at once.** For every list of clauses and all settings, an attempt
ends with a contradiction without a turn if and only if the list has an empty clause with no clause before it that mimics
the empty clause under the keys of the settings. -/
theorem contradiction_at_once_iff (settings : Settings) (clauses : List Clause) :
    let o := (proveClauses settings clauses).outcome
    (o.proved = true ∧ o.termination = .contradiction ∧ o.tally.steps = 0) ↔
      ∃ before after, clauses = before ++ Clause.empty :: after ∧ ∀ c ∈ before, ¬ settings.dedup.Mimics c := by
  intro o
  rw [← WorkingSet.empty_mem_insertAll, ← ofClauses_working]
  have htermination : o.termination = ((ofClauses settings clauses).search settings).2 := rfl
  have hsteps : o.tally.steps = ((ofClauses settings clauses).search settings).1.steps := rfl
  have hproved : o.proved = (o.termination == .contradiction) := rfl
  constructor
  · rintro ⟨-, hτ, hnone⟩
    have hending := ofClauses_ending settings clauses
    rw [← htermination, hτ] at hending
    exact hending.empty_mem (hsteps.symm.trans hnone)
  · intro hempty
    have hsearch := State.search_of_empty_mem settings hempty
    rw [hproved, htermination, hsteps, hsearch]
    exact ⟨rfl, rfl, by rw [State.noteConflicts_steps, ofClauses_steps]⟩

/-- After the proposition `◻`, or, for keys that are sets of literals, after a proposition without a name, the empty clause
is dropped: the supply is exhausted and nothing is proved. -/
theorem empty_input_missed :
    let box : Clause := ⟨[⟨true, Atom.prop "◻"⟩]⟩
    let nameless : Clause := ⟨[⟨true, Atom.prop ""⟩]⟩
    (proveClauses {} [box, .empty]).outcome.proved = false ∧
      (proveClauses {} [box, .empty]).outcome.termination = .supplyExhausted ∧
      (proveClauses { dedup := .literalSet } [nameless, .empty]).outcome.proved = false ∧
      (proveClauses { dedup := .literalSet } [nameless, .empty]).outcome.termination = .supplyExhausted := by
  decide +kernel

end Search

end Refutation
