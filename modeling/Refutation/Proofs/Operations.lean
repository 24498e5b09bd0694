/-
Working sets under every sequence of calls.

`History.after k ops` is a new working set with keys of kind `k` after the calls `ops`, with the pivots that they have taken.
What holds after any calls is `Consistent`: the accounts of `Accounted`, each queue with clauses of its own kind only, and
clauses other than units taken in the order in which they were stored. One call keeps it (`perform_consistent`), because
`perform_cases` lists all that a call can do. The working sets of a search come about by such calls
(`Course.exists_operations`), so every index that a search looks up is that of a stored clause. `Lookup` lists when indices
are looked up, and every look-up of a search is one of these (`lookup_of_mem_uses`).
-/
import Refutation.Proofs.Uses

namespace Refutation

namespace WorkingSet

/-- a call on a working set -/
inductive Operation where
  | insertInitial (c : Clause)
  | insertDerived (c : Clause)
  | nextPivot
deriving DecidableEq, Repr

/-- a working set, and the pivots taken from it so far -/
structure History where
  working : WorkingSet
  taken : List Nat := []

/-- one call; the pivot that it gives is written down -/
def History.perform (h : History) : Operation → History
  | .insertInitial c => { h with working := (h.working.insertInitial c).2 }
  | .insertDerived c => { h with working := (h.working.insertDerived c).2 }
  | .nextPivot => { working := h.working.nextPivot.2, taken := h.taken ++ h.working.nextPivot.1.toList }

/-- the calls, one after the other, on a new working set -/
def History.after (k : Dedup) (ops : List Operation) : History := ops.foldl History.perform { working := empty k }

/-- the index is that of a unit clause -/
def unitAt (w : WorkingSet) (i : Nat) : Bool := (w.get? i).any Clause.isUnit

/-- the index is that of a clause that is not a unit -/
def otherAt (w : WorkingSet) (i : Nat) : Bool := (w.get? i).any fun c => !c.isUnit

/-- what holds after any calls of a working set and the pivots taken from it -/
structure Consistent (w : WorkingSet) (taken : List Nat) : Prop extends w.Accounted taken where
  units : ∀ i ∈ w.units.toList, w.unitAt i = true
  others : ∀ i ∈ w.others.toList, w.otherAt i = true
  /-- clauses other than units are taken in the order of their indices -/
  order : (taken.filter w.otherAt ++ w.others.toList).Pairwise (· < ·)

/-- What an insertion gives. A clause whose key is that of a stored clause is refused, and nothing changes; another clause
is stored under the index given. -/
def Inserts (w : WorkingSet) (c : Clause) : Option Nat × WorkingSet → Prop
  | (none, w') => w' = w ∧ ∃ d ∈ w.clauses, w.dedup.key d = w.dedup.key c
  | (some i, w') => w'.get? i = some c ∧ ∀ d ∈ w.clauses, w.dedup.key d ≠ w.dedup.key c

/-- What taking a pivot gives. There is none only when no clause waits, and then nothing changes; a clause that is not a
unit is taken only when no unit waits. -/
def Serves (w : WorkingSet) : Option Nat × WorkingSet → Prop
  | (none, w') => w' = w ∧ w.waiting = []
  | (some i, _) => i ∈ w.waiting ∧ (w.otherAt i = true → ∀ j ∈ w.waiting, w.unitAt j = false)

/-- the index of the stored clause joins the queue for its kind, that of a clause other than a unit at the back -/
inductive Filed (w : WorkingSet) (c : Clause) (w' : WorkingSet) : Prop where
  | unit (hc : c.isUnit = true) (hunits : w'.units.toList.Perm (w.size :: w.units.toList))
      (hothers : w'.others = w.others)
  | other (hc : c.isUnit = false) (hunits : w'.units = w.units)
      (hothers : w'.others.toList = w.others.toList ++ [w.size])

/-- the pivot was the first of the units or, without units, the first of the others -/
inductive Served (w : WorkingSet) (i : Nat) (w' : WorkingSet) : Prop where
  | unit (hunits : w.units.toList = i :: w'.units.toList) (hothers : w'.others = w.others)
  | other (hnone : w.units.toList = []) (hunits : w'.units = w.units) (hothers : w.others.toList = i :: w'.others.toList)

variable {w w' : WorkingSet} {c : Clause} {i : Nat} {taken : List Nat}

/-! ## One call -/

/-- an addition changes nothing, or stores the clause and files its index -/
theorem insertWith_effect (w : WorkingSet) (c : Clause) {units : Queue Nat}
    (hunits : units.toList.Perm (w.size :: w.units.toList)) :
    (w.insertWith c units).2 = w ∨
      (Stored w c (w.insertWith c units).2 ∧ Filed w c (w.insertWith c units).2) := by
  rcases insertWith_cases w c hunits with ⟨-, e⟩ | ⟨hunknown, w', e, hst⟩
  · exact Or.inl (by rw [e])
  · refine Or.inr ⟨by rwa [e], ?_⟩
    rw [insertWith, hunknown, if_neg (by simp)]
    cases hunit : c.isUnit with
    | true => exact .unit hunit hunits rfl
    | false => exact .other hunit rfl (Queue.toList_pushBack _ _)

theorem nextPivot_served (h : w.nextPivot = (some i, w')) : Served w i w' := by
  rcases nextPivot_cases w with ⟨k, units, hu, e⟩ | ⟨hnone, k, others, ho, e⟩ | ⟨-, e⟩
  · rw [h] at e
    obtain ⟨hk, rfl⟩ := Prod.mk.inj e
    obtain rfl := Option.some.inj hk
    exact .unit hu rfl
  · rw [h] at e
    obtain ⟨hk, rfl⟩ := Prod.mk.inj e
    obtain rfl := Option.some.inj hk
    exact .other hnone rfl ho
  · rw [h] at e
    cases (Prod.mk.inj e).1

/-- **All that a call can do:** nothing, store a clause, or take a pivot. -/
theorem History.perform_cases (h : History) (op : Operation) :
    h.perform op = h ∨
      (∃ c, h.working.Stored c (h.perform op).working ∧ h.working.Filed c (h.perform op).working ∧
        (h.perform op).taken = h.taken) ∨
      ∃ i, h.working.Popped i (h.perform op).working ∧ h.working.Served i (h.perform op).working ∧
        (h.perform op).taken = h.taken ++ [i] := by
  cases op with
  | insertInitial c =>
    rw [perform, insertInitial_eq]
    rcases insertWith_effect h.working c h.working.toList_units_pushBack with e | ⟨hst, hfiled⟩
    · exact Or.inl (by rw [e])
    · exact Or.inr (Or.inl ⟨c, hst, hfiled, rfl⟩)
  | insertDerived c =>
    rw [perform, insertDerived_eq]
    rcases insertWith_effect h.working c h.working.toList_units_pushFront with e | ⟨hst, hfiled⟩
    · exact Or.inl (by rw [e])
    · exact Or.inr (Or.inl ⟨c, hst, hfiled, rfl⟩)
  | nextPivot =>
    rw [perform]
    rcases hpivot : h.working.nextPivot with ⟨_ | i, w'⟩
    · refine Or.inl ?_
      rw [(nextPivot_eq_none hpivot).1, Option.toList_none, List.append_nil]
    · exact Or.inr (Or.inr ⟨i, nextPivot_some hpivot, nextPivot_served hpivot, rfl⟩)

/-! ## The kind of a clause -/

theorem get?_stored (h : Stored w c w') : w'.get? w.size = some c := by
  rw [get?, h.clauses]
  exact Array.getElem?_push_size

theorem unitAt_stored (h : Stored w c w') (hi : w.unitAt i = true) : w'.unitAt i = true := by
  obtain ⟨d, hd, hunit⟩ := Option.any_eq_true _ _ |>.1 hi
  rw [unitAt, h.toExtends.get? hd]
  exact hunit

theorem otherAt_stored (h : Stored w c w') (hi : i < w.size) : w'.otherAt i = w.otherAt i := by
  obtain ⟨d, hd⟩ := get?_of_lt hi
  rw [otherAt, otherAt, h.toExtends.get? hd, hd]

theorem lt_of_otherAt (h : w.otherAt i = true) : i < w.size := by
  obtain ⟨d, hd, -⟩ := Option.any_eq_true _ _ |>.1 h
  exact get?_lt hd

theorem otherAt_of_unitAt (h : w.unitAt i = true) : w.otherAt i = false := by
  obtain ⟨d, hd, hunit⟩ := Option.any_eq_true _ _ |>.1 h
  rw [otherAt, hd]
  simp [hunit]

theorem unitAt_of_otherAt (h : w.otherAt i = true) : w.unitAt i = false := by
  cases hunit : w.unitAt i with
  | false => rfl
  | true =>
    rw [otherAt_of_unitAt hunit] at h
    cases h

/-! ## What calls keep -/

namespace Consistent

theorem start (k : Dedup) : (empty k).Consistent [] where
  toAccounted := Accounted.start k
  units := by simp [empty]
  others := by simp [empty]
  order := List.Pairwise.nil

theorem lt_of_mem_taken (h : w.Consistent taken) (hi : i ∈ taken) : i < w.size :=
  List.mem_range.1 (h.indices.mem_iff.1 (List.mem_append_left _ hi))

theorem stored (h : w.Consistent taken) (hst : Stored w c w') (hfiled : Filed w c w') : w'.Consistent taken := by
  have hothers : ∀ i ∈ w.others.toList, w'.otherAt i = true := fun i hi => by
    rw [otherAt_stored hst (lt_of_otherAt (h.others i hi))]
    exact h.others i hi
  have htaken : taken.filter w'.otherAt = taken.filter w.otherAt :=
    List.filter_congr fun i hi => otherAt_stored hst (h.lt_of_mem_taken hi)
  cases hfiled with
  | unit hc hu ho =>
    refine ⟨h.toAccounted.stored hst, fun i hi => ?_, by rwa [ho], ?_⟩
    · rcases List.mem_cons.1 (hu.mem_iff.1 hi) with rfl | hi
      · rw [unitAt, get?_stored hst]
        exact hc
      · exact unitAt_stored hst (h.units i hi)
    · rw [htaken, ho]
      exact h.order
  | other hc hu ho =>
    refine ⟨h.toAccounted.stored hst, fun i hi => ?_, fun i hi => ?_, ?_⟩
    · rw [hu] at hi
      exact unitAt_stored hst (h.units i hi)
    · rw [ho] at hi
      rcases List.mem_append.1 hi with hi | hi
      · exact hothers i hi
      · obtain rfl := List.mem_singleton.1 hi
        rw [otherAt, get?_stored hst]
        simp [hc]
    · -- the new index is greater than all that were given before
      rw [htaken, ho, ← List.append_assoc]
      refine List.pairwise_append.2 ⟨h.order, List.pairwise_singleton _ _, fun i hi j hj => ?_⟩
      obtain rfl := List.mem_singleton.1 hj
      rcases List.mem_append.1 hi with hi | hi
      · exact h.lt_of_mem_taken (List.mem_filter.1 hi).1
      · exact lt_of_otherAt (h.others i hi)

theorem popped (h : w.Consistent taken) (hp : Popped w i w') (hserved : Served w i w') :
    w'.Consistent (taken ++ [i]) := by
  have hunitAt : w'.unitAt = w.unitAt := by
    funext j
    rw [unitAt, unitAt, hp.get?]
  have hotherAt : w'.otherAt = w.otherAt := by
    funext j
    rw [otherAt, otherAt, hp.get?]
  cases hserved with
  | unit hu ho =>
    have hi : w.otherAt i = false := otherAt_of_unitAt (h.units i (by simp [hu]))
    refine ⟨h.toAccounted.popped hp, fun j hj => ?_, ?_, ?_⟩
    · rw [hunitAt]
      exact h.units j (by simp [hu, hj])
    · rw [hotherAt, ho]
      exact h.others
    · rw [hotherAt, ho, List.filter_append, List.filter_singleton, hi]
      simpa using h.order
  | other hnone hu ho =>
    have hi : w.otherAt i = true := h.others i (by simp [ho])
    refine ⟨h.toAccounted.popped hp, ?_, fun j hj => ?_, ?_⟩
    · rw [hu, hnone]
      simp
    · rw [hotherAt]
      exact h.others j (by simp [ho, hj])
    · -- the index moves from the front of the queue to the end of the pivots taken
      have horder := h.order
      rw [ho] at horder
      rw [hotherAt, List.filter_append, List.filter_singleton, hi]
      simpa using horder

theorem inserts (h : w.Consistent taken) {result : Option Nat × WorkingSet}
    (hcases : (w.knows c = true ∧ result = (none, w)) ∨
      (w.knows c = false ∧ ∃ w', result = (some w.size, w') ∧ Stored w c w')) : w.Inserts c result := by
  rcases hcases with ⟨hknown, rfl⟩ | ⟨hunknown, w', rfl, hst⟩
  · exact ⟨rfl, h.keys.exists_of_knows hknown⟩
  · refine ⟨get?_stored hst, fun d hd hkey => ?_⟩
    have hknown : w.knows c = true := (h.keys _).2 ⟨d, hd, hkey⟩
    rw [hunknown] at hknown
    cases hknown

theorem serves (h : w.Consistent taken) : w.Serves w.nextPivot := by
  rcases hpivot : w.nextPivot with ⟨_ | i, w'⟩
  · exact nextPivot_eq_none hpivot
  · refine ⟨(nextPivot_some hpivot).waiting.mem_iff.2 List.mem_cons_self, fun hi j hj => ?_⟩
    cases nextPivot_served hpivot with
    | unit hu ho =>
      have hunit : w.unitAt i = true := h.units i (by simp [hu])
      rw [otherAt_of_unitAt hunit] at hi
      cases hi
    | other hnone hu ho =>
      rw [waiting, hnone, List.nil_append] at hj
      exact unitAt_of_otherAt (h.others j hj)

end Consistent

namespace History

theorem after_append (k : Dedup) (ops more : List Operation) :
    after k (ops ++ more) = more.foldl perform (after k ops) :=
  List.foldl_append

theorem perform_consistent {h : History} (hc : h.working.Consistent h.taken) (op : Operation) :
    (h.perform op).working.Consistent (h.perform op).taken := by
  rcases h.perform_cases op with e | ⟨c, hst, hfiled, htaken⟩ | ⟨i, hp, hserved, htaken⟩
  · rwa [e]
  · rw [htaken]
    exact hc.stored hst hfiled
  · rw [htaken]
    exact hc.popped hp hserved

/-- **The working set is consistent after any calls.** -/
theorem after_consistent (k : Dedup) (ops : List Operation) :
    (after k ops).working.Consistent (after k ops).taken := by
  induction ops using List.reverseRecOn with
  | nil => exact Consistent.start k
  | append_singleton ops op ih =>
    rw [after_append]
    exact perform_consistent ih op

theorem after_dedup (k : Dedup) (ops : List Operation) : (after k ops).working.dedup = k := by
  induction ops using List.reverseRecOn with
  | nil => rfl
  | append_singleton ops op ih =>
    rw [after_append, List.foldl_cons, List.foldl_nil]
    rcases (after k ops).perform_cases op with e | ⟨c, hst, -⟩ | ⟨i, hp, -⟩
    · rw [e, ih]
    · rw [hst.dedup, ih]
    · rw [hp.dedup, ih]

/-- a clause keeps its index -/
theorem foldl_get? (more : List Operation) {h : History} (hi : h.working.get? i = some c) :
    (more.foldl perform h).working.get? i = some c := by
  induction more generalizing h with
  | nil => exact hi
  | cons op more ih =>
    refine ih ?_
    rcases h.perform_cases op with e | ⟨d, hst, -⟩ | ⟨j, hp, -⟩
    · rwa [e]
    · exact hst.toExtends.get? hi
    · rwa [hp.get?]

end History

end WorkingSet

/-! ## Searches -/

namespace Search

open WorkingSet

variable {settings : Settings} {input s t : State} {agenda : List Inference}

/-- The index is looked up in the working set: as that of a pivot, when the pivot is taken, or as that of a partner, while
clauses are added to the working set from which the pivot was taken. -/
inductive Lookup (settings : Settings) (input : State) : WorkingSet → Nat → Prop where
  | pivot {s : State} {i : Nat} {w : WorkingSet} (h : Course settings input s [])
      (hpivot : s.working.nextPivot = (some i, w)) : Lookup settings input w i
  | partner {s : State} {i j : Nat} {w w' : WorkingSet} {pivot : Clause} (h : Course settings input s [])
      (hpivot : s.working.nextPivot = (some i, w)) (hi : w.get? i = some pivot)
      (hj : j ∈ State.otherPartners w i pivot) (hadded : w.Extends w') : Lookup settings input w' j

/-- an inference offers its resolvent to the working set, unless that is the empty clause -/
theorem State.absorb_working_eq {x : Inference} (h : absorb [x] s = (t, false)) :
    t.working = (s.working.insertDerived x.resolvent).2 := by
  simp only [absorb] at h
  split at h
  · cases (Prod.mk.inj h).2
  · rcases insertDerived_cases s.working x.resolvent with ⟨-, e⟩ | ⟨-, w, e, -⟩
    · rw [e] at h ⊢
      obtain ⟨rfl, -⟩ := Prod.mk.inj h
      rfl
    · rw [e] at h ⊢
      obtain ⟨rfl, -⟩ := Prod.mk.inj h
      rfl

/-- adding input clauses is a sequence of calls -/
theorem after_insertInitial (k : Dedup) (cs : List Clause) :
    (History.after k (cs.map .insertInitial)).working = (empty k).insertAll cs := by
  rw [History.after, List.foldl_map, insertAll]
  exact (List.foldl_hom History.working fun _ _ => rfl).symm

/-- **Every working set of a search comes about by calls** on a new one. -/
theorem Course.exists_operations {k : Dedup} {cs : List Clause} (hinput : input.working = (empty k).insertAll cs)
    (h : Course settings input s agenda) : ∃ ops, (History.after k ops).working = s.working := by
  induction h with
  | start => exact ⟨cs.map .insertInitial, by rw [State.noteConflicts_working, hinput, after_insertInitial]⟩
  | @turn s i w pivot _ _ hpivot _ ih =>
    obtain ⟨ops, hops⟩ := ih
    refine ⟨ops ++ [.nextPivot], ?_⟩
    rw [History.after_append]
    simp only [List.foldl_cons, List.foldl_nil, History.perform, hops, hpivot]
    rfl
  | @infer s t x rest _ hx ih =>
    obtain ⟨ops, hops⟩ := ih
    refine ⟨ops ++ [.insertDerived x.resolvent], ?_⟩
    rw [History.after_append, State.absorb_working_eq hx]
    simp only [List.foldl_cons, List.foldl_nil, History.perform, hops]

theorem Lookup.lt {k : Dedup} {cs : List Clause} {w : WorkingSet} {i : Nat}
    (hinput : input.working = (empty k).insertAll cs) (h : Lookup settings input w i) : i < w.size := by
  cases h with
  | pivot hcourse hpivot =>
    obtain ⟨ops, hops⟩ := hcourse.exists_operations hinput
    have hconsistent := History.after_consistent k ops
    rw [hops] at hconsistent
    exact hconsistent.pivot_lt (nextPivot_some hpivot)
  | @partner _ _ _ w₁ _ pivot _ _ _ hj hadded =>
    have hrange : i < w₁.size := by
      have hmem := (List.mem_filter.1 hj).1
      simp only [partners] at hmem
      split at hmem
      · exact List.mem_range.1 hmem
      · exact List.mem_range.1 (List.mem_filter.1 hmem).1
    exact hrange.trans_le hadded.clauses.length_le

/-- **Every look-up is accounted for:** an index that a search looks up is looked up as that of a pivot or of a partner. -/
theorem lookup_of_mem_uses {w : WorkingSet} {i : Nat} (hsteps : input.steps = 0) (hacc : input.Accounted)
    (h : .lookUp w i ∈ input.uses settings) : Lookup settings input w i := by
  cases State.uses_along hsteps hacc h with
  | pivot hcourse hpivot => exact .pivot hcourse hpivot
  | partner hcourse hpivot hi hj => exact .partner hcourse hpivot hi hj (Extends.refl _)

/-- adding formulas looks up nothing, so all look-ups of an attempt are those of its search -/
theorem lookup_of_mem_proveUses {formulas : List String} {w : WorkingSet} {i : Nat}
    (h : .lookUp w i ∈ proveUses settings formulas) : Lookup settings (ofFormulas settings formulas) w i := by
  rcases List.mem_append.1 h with h | h
  · obtain ⟨_, _, _, _, -, -, huse⟩ := State.exists_of_mem_inputUses h
    cases huse
  · exact lookup_of_mem_uses (ofFormulas_steps settings formulas) (ofFormulas_accounted settings formulas) h

theorem lookup_of_mem_clauseUses {clauses : List Clause} {w : WorkingSet} {i : Nat}
    (h : .lookUp w i ∈ (ofClauses settings clauses).uses settings) : Lookup settings (ofClauses settings clauses) w i :=
  lookup_of_mem_uses (ofClauses_steps settings clauses) (ofClauses_accounted settings clauses) h

/-- **Working sets are consistent.** After any calls on a new working set, of either kind of keys: the known keys are those
of the stored clauses, and no two clauses share one; the pivots taken and the indices in the queues are together the
indices of the clauses, each once; each queue has clauses of its kind only, and clauses other than units are taken in the
order of their indices, none while a unit waits. A refused clause changes nothing, and later calls change no stored clause.
So a search, on formulas or on clauses, looks up no index that is out of range. -/
theorem operations_consistent :
    (∀ (k : Dedup) (ops : List Operation),
      let w := (History.after k ops).working
      w.dedup = k ∧ w.Consistent (History.after k ops).taken ∧ w.Serves w.nextPivot ∧
        (∀ c, w.Inserts c (w.insertInitial c) ∧ w.Inserts c (w.insertDerived c)) ∧
        ∀ more i c, w.get? i = some c → (History.after k (ops ++ more)).working.get? i = some c) ∧
    (∀ settings formulas w i, Lookup settings (ofFormulas settings formulas) w i → i < w.size) ∧
    ∀ settings clauses w i, Lookup settings (ofClauses settings clauses) w i → i < w.size := by
  refine ⟨fun k ops => ?_, fun settings formulas w i h => h.lt (ofFormulas_working settings formulas),
    fun settings clauses w i h => h.lt (ofClauses_working settings clauses)⟩
  intro w
  have hconsistent := History.after_consistent k ops
  refine ⟨History.after_dedup k ops, hconsistent, hconsistent.serves, fun c => ⟨?_, ?_⟩, fun more i c hi => ?_⟩
  · exact hconsistent.inserts (insertInitial_cases _ c)
  · exact hconsistent.inserts (insertDerived_cases _ c)
  · rw [History.after_append]
    exact History.foldl_get? more hi

end Search

end Refutation
