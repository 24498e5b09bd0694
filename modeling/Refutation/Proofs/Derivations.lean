/-
Every clause of a search has a derivation.

`Derivation settings input journal c`: the clause `c` is an input clause, or a resolvent of two clauses with derivations,
taken by a resolution that the journal notes. All clauses that a search stores have one, and so has the empty clause when
the search ends with a contradiction (`search_derived`). A property of all clauses that a search can meet is then proved
by induction on derivations, without another look at the search.
-/
import Refutation.Proofs.Resolvents
import Refutation.Proofs.SearchRuns

namespace Refutation.Search

/-- `c` comes from the input by resolutions that are noted in the journal -/
inductive Derivation (settings : Settings) (input : List Clause) (journal : List Journal.Entry) : Clause → Prop where
  | input {c : Clause} (h : c ∈ input) : Derivation settings input journal c
  | resolve {left right : Clause} {r : Resolvent} (hleft : Derivation settings input journal left)
      (hright : Derivation settings input journal right)
      (h : r ∈ settings.pairSelection.resolvents settings.unifier left right)
      (hnoted : .resolved left right r.clause ∈ journal) : Derivation settings input journal r.clause

/-- every stored clause has a derivation -/
def State.Derived (settings : Settings) (input : List Clause) (s : State) : Prop :=
  ∀ c ∈ s.working.clauses, Derivation settings input s.journal.toList c

/-- the inference resolves two clauses with derivations -/
structure Inference.Derived (settings : Settings) (input : List Clause) (journal : List Journal.Entry)
    (i : Inference) : Prop where
  left : Derivation settings input journal i.left
  right : Derivation settings input journal i.right
  resolvent : ∃ r ∈ settings.pairSelection.resolvents settings.unifier i.left i.right, r.clause = i.resolvent

variable {settings : Settings} {input : List Clause} {journal journal' : List Journal.Entry}

theorem Derivation.mono {c : Clause} (hsub : journal ⊆ journal') (h : Derivation settings input journal c) :
    Derivation settings input journal' c := by
  induction h with
  | input h => exact .input h
  | resolve _ _ h hnoted ihl ihr => exact .resolve ihl ihr h (hsub hnoted)

/-- what the input has and resolvents inherit, every derived clause has -/
theorem Derivation.invariant {P : Clause → Prop} (hinput : ∀ c ∈ input, P c)
    (hstep : ∀ c d r, P c → P d → r ∈ resolvents settings.unifier c d → P r.clause) {c : Clause}
    (h : Derivation settings input journal c) : P c := by
  induction h with
  | input h => exact hinput _ h
  | resolve _ _ h _ ihl ihr => exact hstep _ _ _ ihl ihr (PairSelection.resolvents_subset _ _ _ _ h)

theorem Inference.Derived.mono {i : Inference} (hsub : journal ⊆ journal') (h : i.Derived settings input journal) :
    i.Derived settings input journal' :=
  ⟨h.left.mono hsub, h.right.mono hsub, h.resolvent⟩

theorem Inference.Derived.derivation {i : Inference} (h : i.Derived settings input journal)
    (hnoted : .resolved i.left i.right i.resolvent ∈ journal) : Derivation settings input journal i.resolvent := by
  obtain ⟨r, hr, hclause⟩ := h.resolvent
  rw [← hclause] at hnoted ⊢
  exact .resolve h.left h.right hr hnoted

namespace State

variable {s t : State}

/-- an inference of a pivot is with a clause of another index -/
theorem exists_partner {w : WorkingSet} {i : Nat} {pivot : Clause} {x : Inference}
    (h : x ∈ inferences settings w i pivot) :
    ∃ j, i ≠ j ∧ x.left = pivot ∧ w.get? j = some x.right ∧
      ∃ r ∈ settings.pairSelection.resolvents settings.unifier x.left x.right, r.clause = x.resolvent := by
  simp only [inferences, List.mem_flatMap] at h
  obtain ⟨j, hj, hx⟩ := h
  have hij : i ≠ j := fun hij => by simp [otherPartners, hij] at hj
  simp only [inferencesWith] at hx
  split at hx
  · cases hx
  · rename_i partner hpartner
    obtain ⟨r, hr, rfl⟩ := List.mem_map.1 hx
    exact ⟨j, hij, rfl, hpartner, r, hr, rfl⟩

theorem mem_inferences {w : WorkingSet} {i : Nat} {pivot : Clause} {x : Inference}
    (h : x ∈ inferences settings w i pivot) :
    x.left = pivot ∧ x.right ∈ w.clauses ∧
      ∃ r ∈ settings.pairSelection.resolvents settings.unifier x.left x.right, r.clause = x.resolvent := by
  obtain ⟨j, -, hleft, hj, hr⟩ := exists_partner h
  exact ⟨hleft, WorkingSet.mem_clauses_iff.2 ⟨j, hj⟩, hr⟩

theorem absorb_derived {xs : List Inference} {found : Bool} (hs : s.Derived settings input)
    (hxs : ∀ x ∈ xs, x.Derived settings input s.journal.toList) (h : absorb xs s = (t, found)) :
    t.Derived settings input ∧ (found = true → Derivation settings input t.journal.toList .empty) := by
  induction xs generalizing s with
  | nil =>
    simp only [absorb] at h
    obtain ⟨rfl, rfl⟩ := Prod.mk.inj h
    exact ⟨hs, fun h => by cases h⟩
  | cons x xs ih =>
    have hx := hxs x List.mem_cons_self
    have hrest : ∀ y ∈ xs, y.Derived settings input s.journal.toList := fun y hy => hxs y (List.mem_cons_of_mem _ hy)
    have hsub : s.journal.toList ⊆ (s.journal.push (.resolved x.left x.right x.resolvent)).toList := fun e he => by
      simp [he]
    have hnew : Derivation settings input (s.journal.push (.resolved x.left x.right x.resolvent)).toList x.resolvent :=
      (hx.mono hsub).derivation (by simp)
    rcases absorb_cases x xs s with ⟨hempty, e⟩ | ⟨-, ⟨-, e⟩ | ⟨w, hst, e⟩⟩
    · rw [e] at h
      obtain ⟨rfl, rfl⟩ := Prod.mk.inj h
      refine ⟨fun c hc => (hs c hc).mono hsub, fun _ => ?_⟩
      exact Clause.isEmpty_iff.1 hempty ▸ hnew
    · rw [e] at h
      exact ih (s := s.count) hs hrest h
    · rw [e] at h
      refine ih (fun c hc => ?_) (fun y hy => (hrest y hy).mono hsub) h
      rw [keep_working, hst.clauses, Array.mem_push] at hc
      rcases hc with hc | rfl
      · exact (hs c hc).mono hsub
      · exact hnew

theorem turn_derived {i : Nat} {w : WorkingSet} {found : Bool} (hs : s.Derived settings input)
    (hpivot : s.working.nextPivot = (some i, w)) (h : turn settings s i w = (t, found)) :
    t.Derived settings input ∧ (found = true → Derivation settings input t.journal.toList .empty) := by
  have hw := WorkingSet.nextPivot_some hpivot
  have hsub : ∀ e : Journal.Entry, s.journal.toList ⊆ (s.journal.push e).toList := fun e x hx => by simp [hx]
  have hclauses : ∀ c ∈ w.clauses, Derivation settings input s.journal.toList c := by
    intro c hc
    rw [hw.clauses] at hc
    exact hs c hc
  cases hi : w.get? i with
  | none =>
    simp only [turn, hi] at h
    obtain ⟨rfl, rfl⟩ := Prod.mk.inj h
    exact ⟨hclauses, fun h => by cases h⟩
  | some pivot =>
    rw [turn_of_get? hi] at h
    refine absorb_derived (fun c hc => (hclauses c hc).mono (hsub _)) (fun x hx => ?_) h
    obtain ⟨hleft, hright, hr⟩ := mem_inferences hx
    have hpivot : x.left ∈ w.clauses := by
      rw [hleft]
      exact WorkingSet.mem_clauses_iff.2 ⟨i, hi⟩
    exact ⟨(hclauses _ hpivot).mono (hsub _), (hclauses _ hright).mono (hsub _), hr⟩

/-- **Stored clauses have derivations**, and the empty clause has one when the search finds a contradiction. -/
theorem search_derived {τ : Termination} (hs : s.Derived settings input) (h : s.search settings = (t, τ)) :
    t.Derived settings input ∧ (τ = .contradiction → Derivation settings input t.journal.toList .empty) := by
  have hconflicts : s.noteConflicts.Derived settings input := fun c hc => by
    rw [noteConflicts_working] at hc
    exact (hs c hc).mono s.noteConflicts_journal
  rcases search_cases h with ⟨rfl, -, rfl⟩ | ⟨rfl, hempty, rfl⟩ | ⟨-, hsat⟩
  · exact ⟨hs, fun h => by cases h⟩
  · exact ⟨hconflicts, fun _ => (hs _ hempty).mono s.noteConflicts_journal⟩
  · have hturn : ∀ s i w, s.Derived settings input → s.working.nextPivot = (some i, w) →
        ∀ t, turn settings s i w = (t, false) → t.Derived settings input :=
      fun s i w hs hpivot t ht => (turn_derived hs hpivot ht).1
    rcases saturate_cases hturn hconflicts hsat with ⟨rfl, s', i, w, hs', hpivot, ht⟩ | ⟨rfl, ht, -⟩ | ⟨rfl, ht⟩
    · have := turn_derived hs' hpivot ht
      exact ⟨this.1, fun _ => this.2 rfl⟩
    · exact ⟨ht, fun h => by cases h⟩
    · exact ⟨ht, fun h => by cases h⟩

/-- the empty clause is derived in the journal of an attempt that proves its input -/
theorem derivation_of_run (hs : s.Derived settings input) (h : (s.run settings).outcome.proved = true) :
    Derivation settings input (s.run settings).journal .empty := by
  have hτ : (s.search settings).2 = .contradiction := by
    simpa [Attempt.outcome, run_termination] using h
  exact ((search_derived hs rfl).2 hτ).mono (journal_subset_run s settings)

end State

theorem ofClauses_derived (settings : Settings) (clauses : List Clause) :
    (ofClauses settings clauses).Derived settings clauses := by
  intro c hc
  rw [ofClauses_working] at hc
  rcases WorkingSet.mem_insertAll hc with hc | hc
  · simp [WorkingSet.empty] at hc
  · exact .input hc

theorem ofFormulas_derived (settings : Settings) (formulas : List String) :
    (ofFormulas settings formulas).Derived settings (Formula.readAll formulas) := by
  intro c hc
  rw [ofFormulas_working] at hc
  rcases WorkingSet.mem_insertAll hc with hc | hc
  · simp [WorkingSet.empty] at hc
  · exact .input hc

end Refutation.Search
