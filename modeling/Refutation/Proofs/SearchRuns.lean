/-
What a search can do, said once for every result about searches.

`absorb_cases` lists what one inference does to the state, `saturate_succ_cases` what becomes of a search with a budget,
`saturate_cases` what a run of turns ends with when every turn keeps a property, and `search_cases` how a search from the
input starts. `ofClauses_working` and `ofFormulas_working` say
that the working set before the first turn is the input clauses, added one after the other. The turns made are counted:
each takes one of the stored clauses (`search_accounted`).
-/
import Refutation.Proofs.WorkingSets
import Refutation.Search

namespace Refutation

/-- the clauses of the formulas that can be read -/
def Formula.readAll (formulas : List String) : List Clause := formulas.filterMap fun f => (Formula.read f).toOption

theorem Formula.mem_readAll {formulas : List String} {c : Clause} :
    c ∈ Formula.readAll formulas ↔ ∃ f ∈ formulas, Formula.read f = .ok c := by
  simp only [Formula.readAll, List.mem_filterMap]
  refine exists_congr fun f => and_congr_right fun _ => ?_
  cases Formula.read f <;> simp [Except.toOption]

namespace Search

namespace State

variable {settings : Settings} {s t : State}

@[simp] theorem note_working (s : State) (e : Journal.Entry) : (s.note e).working = s.working := rfl

@[simp] theorem note_steps (s : State) (e : Journal.Entry) : (s.note e).steps = s.steps := rfl

@[simp] theorem note_journal (s : State) (e : Journal.Entry) : (s.note e).journal = s.journal.push e := rfl

/-- counts a resolvent -/
def count (s : State) : State := { s with generated := s.generated + 1 }

@[simp] theorem count_working (s : State) : s.count.working = s.working := rfl

@[simp] theorem count_steps (s : State) : s.count.steps = s.steps := rfl

@[simp] theorem count_journal (s : State) : s.count.journal = s.journal := rfl

/-! ## One inference -/

/-- the state after an inference whose resolvent is stored -/
def keep (s : State) (i : Inference) (w : WorkingSet) : State :=
  { s.count with working := w }.note (.resolved i.left i.right i.resolvent)

@[simp] theorem keep_working (s : State) (i : Inference) (w : WorkingSet) : (s.keep i w).working = w := rfl

@[simp] theorem keep_steps (s : State) (i : Inference) (w : WorkingSet) : (s.keep i w).steps = s.steps := rfl

@[simp] theorem keep_journal (s : State) (i : Inference) (w : WorkingSet) :
    (s.keep i w).journal = s.journal.push (.resolved i.left i.right i.resolvent) := rfl

/-- the empty clause ends a turn, a clause with a known key is dropped, another clause is stored and noted -/
theorem absorb_cases (i : Inference) (rest : List Inference) (s : State) :
    (i.resolvent.isEmpty = true ∧
      absorb (i :: rest) s = (s.count.note (.resolved i.left i.right i.resolvent), true)) ∨
    (i.resolvent.isEmpty = false ∧
      ((s.working.knows i.resolvent = true ∧ absorb (i :: rest) s = absorb rest s.count) ∨
        ∃ w, s.working.Stored i.resolvent w ∧ absorb (i :: rest) s = absorb rest (s.keep i w))) := by
  simp only [absorb]
  cases hempty : i.resolvent.isEmpty with
  | true => exact Or.inl ⟨rfl, rfl⟩
  | false =>
    refine Or.inr ⟨rfl, ?_⟩
    rw [if_neg (by simp)]
    rcases WorkingSet.insertDerived_cases s.working i.resolvent with ⟨hk, h⟩ | ⟨-, w, h, hst⟩
    · rw [h]
      exact Or.inl ⟨hk, rfl⟩
    · rw [h]
      exact Or.inr ⟨w, hst, rfl⟩

/-- one inference that is not of the empty clause: its resolvent is known, or it is stored -/
theorem absorb_single {i : Inference} (h : absorb [i] s = (t, false)) :
    i.resolvent.isEmpty = false ∧ ((s.working.knows i.resolvent = true ∧ t = s.count) ∨
      ∃ w, s.working.Stored i.resolvent w ∧ t = s.keep i w) := by
  rcases absorb_cases i [] s with ⟨-, e⟩ | ⟨hempty, ⟨hknown, e⟩ | ⟨w, hst, e⟩⟩
  · rw [h] at e
    cases (Prod.mk.inj e).2
  · rw [h] at e
    exact ⟨hempty, Or.inl ⟨hknown, (Prod.mk.inj e).1⟩⟩
  · rw [h] at e
    exact ⟨hempty, Or.inr ⟨w, hst, (Prod.mk.inj e).1⟩⟩

/-- a property that storing the nonempty resolvents keeps is kept by taking in inferences -/
theorem absorb_working {P : WorkingSet → Prop} {xs : List Inference} {found : Bool}
    (hstep : ∀ x ∈ xs, ∀ w w', x.resolvent.isEmpty = false → P w → w.Stored x.resolvent w' → P w') (hs : P s.working)
    (h : absorb xs s = (t, found)) : P t.working := by
  induction xs generalizing s with
  | nil =>
    obtain ⟨rfl, -⟩ := Prod.mk.inj h
    exact hs
  | cons x xs ih =>
    have hrest := fun y hy => hstep y (List.mem_cons_of_mem x hy)
    rcases absorb_cases x xs s with ⟨-, e⟩ | ⟨hempty, ⟨-, e⟩ | ⟨w, hst, e⟩⟩
    · rw [e] at h
      obtain ⟨rfl, -⟩ := Prod.mk.inj h
      exact hs
    · rw [e] at h
      exact ih hrest (s := s.count) hs h
    · rw [e] at h
      exact ih hrest (s := s.keep x w) (hstep x List.mem_cons_self _ _ hempty hs hst) h

theorem absorb_steps {xs : List Inference} {found : Bool} (h : absorb xs s = (t, found)) : t.steps = s.steps := by
  induction xs generalizing s with
  | nil =>
    obtain ⟨rfl, -⟩ := Prod.mk.inj h
    rfl
  | cons x xs ih =>
    rcases absorb_cases x xs s with ⟨-, e⟩ | ⟨-, ⟨-, e⟩ | ⟨w, -, e⟩⟩
    · rw [e] at h
      obtain ⟨rfl, -⟩ := Prod.mk.inj h
      rfl
    · rw [e] at h
      exact ih (s := s.count) h
    · rw [e] at h
      exact ih (s := s.keep x w) h

/-! ## Turns -/

theorem turn_steps {i : Nat} {w : WorkingSet} {found : Bool} (h : turn settings s i w = (t, found)) :
    t.steps = s.steps + 1 := by
  cases hi : w.get? i with
  | none =>
    simp only [turn, hi] at h
    obtain ⟨rfl, -⟩ := Prod.mk.inj h
    rfl
  | some pivot =>
    rw [turn_of_get? hi] at h
    rw [absorb_steps h]
    rfl

/-- without budget a search stops at the limit, unless no clause waits -/
theorem saturate_zero_cases (settings : Settings) (s : State) :
    (s.working.waiting ≠ [] ∧ saturate settings 0 s = (s, .stepLimit)) ∨
      (s.working.waiting = [] ∧ saturate settings 0 s = (s, .supplyExhausted)) := by
  by_cases hpending : s.working.hasPending = true
  · exact Or.inl ⟨WorkingSet.hasPending_iff.1 hpending, by rw [saturate, if_pos hpending]⟩
  · exact Or.inr ⟨WorkingSet.waiting_of_not_hasPending hpending, by rw [saturate, if_neg hpending]⟩

/-- with a budget a search ends when there is no pivot, makes a turn that ends it, or makes a turn and goes on -/
theorem saturate_succ_cases (settings : Settings) (budget : Nat) (s : State) :
    (s.working.waiting = [] ∧ saturate settings (budget + 1) s = (s, .supplyExhausted)) ∨
      ∃ i w t, s.working.nextPivot = (some i, w) ∧
        ((turn settings s i w = (t, true) ∧ saturate settings (budget + 1) s = (t, .contradiction)) ∨
          (turn settings s i w = (t, false) ∧ saturate settings (budget + 1) s = saturate settings budget t)) := by
  simp only [saturate]
  rcases hpivot : s.working.nextPivot with ⟨_ | i, w⟩
  · exact Or.inl ⟨(WorkingSet.nextPivot_eq_none hpivot).2, rfl⟩
  · refine Or.inr ⟨i, w, (turn settings s i w).1, rfl, ?_⟩
    rcases hresult : turn settings s i w with ⟨t, _ | _⟩
    · exact Or.inr ⟨rfl, by simp only [hresult]⟩
    · exact Or.inl ⟨rfl, by simp only [hresult]⟩

/-- a run of turns that each keep `I` ends with the empty clause in some turn, or keeps `I` to the end -/
theorem saturate_cases {I : State → Prop}
    (hturn : ∀ s i w, I s → s.working.nextPivot = (some i, w) → ∀ t, turn settings s i w = (t, false) → I t)
    {budget : Nat} {τ : Termination} (hs : I s) (h : saturate settings budget s = (t, τ)) :
    (τ = .contradiction ∧ ∃ s' i w, I s' ∧ s'.working.nextPivot = (some i, w) ∧ turn settings s' i w = (t, true)) ∨
      (τ = .supplyExhausted ∧ I t ∧ ∀ i, ¬ t.working.Queued i) ∨ (τ = .stepLimit ∧ I t) := by
  induction budget generalizing s with
  | zero =>
    rcases saturate_zero_cases settings s with ⟨-, e⟩ | ⟨hwaiting, e⟩
    · rw [e] at h
      obtain ⟨rfl, rfl⟩ := Prod.mk.inj h
      exact Or.inr (Or.inr ⟨rfl, hs⟩)
    · rw [e] at h
      obtain ⟨rfl, rfl⟩ := Prod.mk.inj h
      exact Or.inr (Or.inl ⟨rfl, hs, WorkingSet.not_queued_of_waiting hwaiting⟩)
  | succ budget ih =>
    rcases saturate_succ_cases settings budget s with ⟨hwaiting, e⟩ | ⟨i, w, s1, hpivot, ⟨hresult, e⟩ | ⟨hresult, e⟩⟩
    · rw [e] at h
      obtain ⟨rfl, rfl⟩ := Prod.mk.inj h
      exact Or.inr (Or.inl ⟨rfl, hs, WorkingSet.not_queued_of_waiting hwaiting⟩)
    · rw [e] at h
      obtain ⟨rfl, rfl⟩ := Prod.mk.inj h
      exact Or.inl ⟨rfl, s, i, w, hs, hpivot, hresult⟩
    · rw [e] at h
      exact ih (hturn s i w hs hpivot s1 hresult) h

/-- every stored clause waits or was the pivot of one of the turns made -/
def Accounted (s : State) : Prop := ∃ taken, taken.length = s.steps ∧ s.working.Accounted taken

theorem turn_accounted {i : Nat} {w : WorkingSet} {found : Bool} (hs : s.Accounted)
    (hpivot : s.working.nextPivot = (some i, w)) (h : turn settings s i w = (t, found)) : t.Accounted := by
  obtain ⟨taken, hlen, hacc⟩ := hs
  have hpopped := hacc.popped (WorkingSet.nextPivot_some hpivot)
  refine ⟨taken ++ [i], by rw [turn_steps h, List.length_append, hlen, List.length_singleton], ?_⟩
  cases hi : w.get? i with
  | none =>
    simp only [turn, hi] at h
    obtain ⟨rfl, -⟩ := Prod.mk.inj h
    exact hpopped
  | some pivot =>
    rw [turn_of_get? hi] at h
    exact absorb_working (P := fun w => w.Accounted (taken ++ [i])) (fun _ _ _ _ _ hw hst => hw.stored hst) hpopped h

/-! ## The start -/

/-- noting the predicates with several arities adds entries to the journal and changes nothing else -/
theorem noteConflicts_eq (s : State) :
    s.noteConflicts = { s with journal := s.journal ++
      ((Signature.ofClauses s.working.clauses.toList).conflicts.map fun p => .mixedArities p.1 p.2).toArray } := by
  simp only [noteConflicts]
  generalize (Signature.ofClauses s.working.clauses.toList).conflicts = conflicts
  induction conflicts generalizing s with
  | nil => simp
  | cons p conflicts ih =>
    rw [List.foldl_cons, ih]
    simp [note]

@[simp] theorem noteConflicts_working (s : State) : s.noteConflicts.working = s.working := by
  rw [noteConflicts_eq]

@[simp] theorem noteConflicts_steps (s : State) : s.noteConflicts.steps = s.steps := by
  rw [noteConflicts_eq]

theorem noteConflicts_journal (s : State) : s.journal.toList ⊆ s.noteConflicts.journal.toList := by
  rw [noteConflicts_eq, Array.toList_append]
  exact List.subset_append_left _ _

theorem search_cases {τ : Termination} (h : s.search settings = (t, τ)) :
    (τ = .noClauses ∧ s.working.isEmpty = true ∧ t = s) ∨
      (τ = .contradiction ∧ Clause.empty ∈ s.working.clauses ∧ t = s.noteConflicts) ∨
      (Clause.empty ∉ s.working.clauses ∧ saturate settings settings.maxSteps s.noteConflicts = (t, τ)) := by
  have hempty : s.working.clauses.any Clause.isEmpty = true ↔ Clause.empty ∈ s.working.clauses := by
    simp only [Array.any_eq_true', Clause.isEmpty_iff]
    constructor
    · rintro ⟨c, hc, rfl⟩
      exact hc
    · intro hc
      exact ⟨_, hc, rfl⟩
  simp only [search] at h
  split_ifs at h with hnone hany
  · obtain ⟨rfl, rfl⟩ := Prod.mk.inj h
    exact Or.inl ⟨rfl, hnone, rfl⟩
  · obtain ⟨rfl, rfl⟩ := Prod.mk.inj h
    exact Or.inr (Or.inl ⟨rfl, hempty.1 hany, rfl⟩)
  · exact Or.inr (Or.inr ⟨fun hc => hany (hempty.2 hc), h⟩)

/-- the working set when the search from the input ends -/
def final (s : State) (settings : Settings) : WorkingSet := (s.search settings).1.working

theorem noteConflicts_accounted (hs : s.Accounted) : s.noteConflicts.Accounted := by
  obtain ⟨taken, hlen, hacc⟩ := hs
  exact ⟨taken, by rw [hlen, noteConflicts_steps], by rwa [noteConflicts_working]⟩

theorem search_accounted {τ : Termination} (hs : s.Accounted) (h : s.search settings = (t, τ)) : t.Accounted := by
  have hstart := noteConflicts_accounted hs
  rcases search_cases h with ⟨-, -, rfl⟩ | ⟨-, -, rfl⟩ | ⟨-, hsat⟩
  · exact hs
  · exact hstart
  · have hturn : ∀ s i w, s.Accounted → s.working.nextPivot = (some i, w) →
        ∀ t, turn settings s i w = (t, false) → t.Accounted := fun _ _ _ hs hpivot _ ht => turn_accounted hs hpivot ht
    rcases saturate_cases hturn hstart hsat with ⟨-, s', i, w, hs', hpivot, ht⟩ | ⟨-, ht, -⟩ | ⟨-, ht⟩
    · exact turn_accounted hs' hpivot ht
    · exact ht
    · exact ht

theorem run_termination (s : State) (settings : Settings) : (s.run settings).termination = (s.search settings).2 := rfl

/-- all that the search noted is in the journal of the attempt -/
theorem journal_subset_run (s : State) (settings : Settings) :
    (s.search settings).1.journal.toList ⊆ (s.run settings).journal := by
  intro e he
  simp [run, conclude, he]

theorem addClause_cases (s : State) (c : Clause) :
    (s.working.knows c = true ∧ s.addClause c = s.note (.repeated c)) ∨
      ∃ w, s.working.Stored c w ∧ s.addClause c = { s with working := w }.note (.added c) := by
  simp only [addClause]
  rcases WorkingSet.insertInitial_cases s.working c with ⟨hknown, h⟩ | ⟨-, w, h, hst⟩
  · rw [h]
    exact Or.inl ⟨hknown, rfl⟩
  · rw [h]
    exact Or.inr ⟨w, hst, rfl⟩

theorem addClause_working (s : State) (c : Clause) : (s.addClause c).working = (s.working.insertInitial c).2 := by
  simp only [addClause]
  rcases WorkingSet.insertInitial_cases s.working c with ⟨-, h⟩ | ⟨-, w, h, -⟩ <;> rw [h] <;> rfl

theorem addClause_steps (s : State) (c : Clause) : (s.addClause c).steps = s.steps := by
  simp only [addClause]
  rcases s.working.insertInitial c with ⟨_ | k, w⟩ <;> rfl

theorem addFormula_steps (s : State) (formula : String) : (s.addFormula formula).steps = s.steps := by
  simp only [addFormula]
  cases Formula.read formula with
  | error e => rfl
  | ok c => exact addClause_steps s c

end State

/-- input that is added without a turn leaves the count of turns -/
theorem foldl_steps {α : Type} {add : State → α → State} (hadd : ∀ s a, (add s a).steps = s.steps) (items : List α)
    (s : State) : (items.foldl add s).steps = s.steps := by
  induction items generalizing s with
  | nil => rfl
  | cons a items ih => rw [List.foldl_cons, ih, hadd]

theorem foldl_addClause_working (clauses : List Clause) (s : State) :
    (clauses.foldl State.addClause s).working = s.working.insertAll clauses := by
  induction clauses generalizing s with
  | nil => rfl
  | cons c clauses ih => rw [List.foldl_cons, ih, State.addClause_working, WorkingSet.insertAll_cons]

theorem ofClauses_working (settings : Settings) (clauses : List Clause) :
    (ofClauses settings clauses).working = (WorkingSet.empty settings.dedup).insertAll clauses :=
  foldl_addClause_working clauses _

theorem ofClauses_steps (settings : Settings) (clauses : List Clause) : (ofClauses settings clauses).steps = 0 :=
  foldl_steps State.addClause_steps clauses _

theorem ofClauses_accounted (settings : Settings) (clauses : List Clause) : (ofClauses settings clauses).Accounted := by
  refine ⟨[], (ofClauses_steps settings clauses).symm, ?_⟩
  rw [ofClauses_working]
  exact WorkingSet.insertAll_accounted (WorkingSet.Accounted.start _)

theorem ofClauses_search_accounted (settings : Settings) (clauses : List Clause) :
    ((ofClauses settings clauses).search settings).1.Accounted :=
  State.search_accounted (ofClauses_accounted settings clauses) rfl

theorem foldl_addFormula_working (formulas : List String) (s : State) :
    (formulas.foldl State.addFormula s).working = s.working.insertAll (Formula.readAll formulas) := by
  induction formulas generalizing s with
  | nil => rfl
  | cons f formulas ih =>
    rw [List.foldl_cons, ih]
    simp only [State.addFormula, Formula.readAll, List.filterMap_cons]
    cases Formula.read f with
    | error e => rfl
    | ok c => simp only [State.addClause_working, Except.toOption, WorkingSet.insertAll_cons]

theorem ofFormulas_working (settings : Settings) (formulas : List String) :
    (ofFormulas settings formulas).working = (WorkingSet.empty settings.dedup).insertAll (Formula.readAll formulas) :=
  foldl_addFormula_working formulas _

theorem ofFormulas_steps (settings : Settings) (formulas : List String) : (ofFormulas settings formulas).steps = 0 :=
  foldl_steps State.addFormula_steps formulas _

theorem ofFormulas_accounted (settings : Settings) (formulas : List String) :
    (ofFormulas settings formulas).Accounted := by
  refine ⟨[], (ofFormulas_steps settings formulas).symm, ?_⟩
  rw [ofFormulas_working]
  exact WorkingSet.insertAll_accounted (WorkingSet.Accounted.start _)

theorem ofFormulas_search_accounted (settings : Settings) (formulas : List String) :
    ((ofFormulas settings formulas).search settings).1.Accounted :=
  State.search_accounted (ofFormulas_accounted settings formulas) rfl

end Search

end Refutation
