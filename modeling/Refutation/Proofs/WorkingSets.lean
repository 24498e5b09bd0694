/-
What the operations on a working set do.

Adding a clause, as input or as derived clause, has one of two effects: nothing when its key is known, and `Stored`
otherwise. Taking a pivot has the effect `Popped`. Along additions a working set only grows (`Extends`): clauses keep
their indices, known keys stay known, waiting indices keep waiting, and every new index waits. `KeysExact` says that the
known keys are the keys of the stored clauses, and `Accounted` that no two clauses share a key and that each of them
either waits or was taken as pivot, once.
-/
import Mathlib.Tactic
import Refutation.WorkingSet

namespace Refutation.WorkingSet

/-- the index waits in one of the two queues -/
def Queued (w : WorkingSet) (i : Nat) : Prop := i ∈ w.units.toList ∨ i ∈ w.others.toList

/-- the indices in the two queues -/
def waiting (w : WorkingSet) : List Nat := w.units.toList ++ w.others.toList

/-- `w'` is `w` with the clause `c`, which `w` does not know, at the end and its index in a queue -/
structure Stored (w : WorkingSet) (c : Clause) (w' : WorkingSet) : Prop where
  unknown : w.knows c = false
  dedup : w'.dedup = w.dedup
  clauses : w'.clauses = w.clauses.push c
  keys : w'.keys = w.keys.insert (w.dedup.key c)
  waiting : w'.waiting.Perm (w.size :: w.waiting)

/-- `w'` is `w` without the index `i` in the queues -/
structure Popped (w : WorkingSet) (i : Nat) (w' : WorkingSet) : Prop where
  dedup : w'.dedup = w.dedup
  clauses : w'.clauses = w.clauses
  keys : w'.keys = w.keys
  waiting : w.waiting.Perm (i :: w'.waiting)

/-- `w'` comes from `w` by additions -/
structure Extends (w w' : WorkingSet) : Prop where
  dedup : w'.dedup = w.dedup
  clauses : w.clauses.toList <+: w'.clauses.toList
  knows : ∀ c, w.knows c = true → w'.knows c = true
  queued : ∀ i, w.Queued i → w'.Queued i
  fresh : ∀ i, w.size ≤ i → i < w'.size → w'.Queued i

/-- the known keys are the keys of the clauses -/
def KeysExact (w : WorkingSet) : Prop := ∀ k, w.keys.contains k = true ↔ ∃ c ∈ w.clauses, w.dedup.key c = k

/-- No two clauses share a key, and their indices are those taken as pivots and those that wait, each of them once. -/
structure Accounted (w : WorkingSet) (taken : List Nat) : Prop where
  keys : w.KeysExact
  distinct : (w.clauses.toList.map w.dedup.key).Nodup
  indices : (taken ++ w.waiting).Perm (List.range w.size)

/-- adds input clauses one after the other -/
def insertAll (w : WorkingSet) (cs : List Clause) : WorkingSet := cs.foldl (fun w c => (w.insertInitial c).2) w

/-- adds a clause; `units` is the queue of the units with the index that a new clause gets -/
def insertWith (w : WorkingSet) (c : Clause) (units : Queue Nat) : Option Nat × WorkingSet :=
  if w.knows c then (none, w)
  else if c.isUnit then (some w.size, { w.store c with units := units })
  else (some w.size, { w.store c with others := w.others.pushBack w.size })

variable {w w' w'' : WorkingSet} {c d : Clause} {i j : Nat}

/-! ## One operation -/

theorem get?_lt (h : w.get? i = some c) : i < w.size := (Array.getElem?_eq_some_iff.1 h).1

theorem mem_clauses_iff : c ∈ w.clauses ↔ ∃ i, w.get? i = some c := Array.mem_iff_getElem?

theorem get?_of_lt (h : i < w.size) : ∃ c, w.get? i = some c := ⟨w.clauses[i], Array.getElem?_eq_getElem h⟩

theorem queued_iff : w.Queued i ↔ i ∈ w.waiting := List.mem_append.symm

/-! The two ways to add a clause differ in the end of the queue that a unit joins. -/

theorem insertInitial_eq (w : WorkingSet) (c : Clause) :
    w.insertInitial c = w.insertWith c (w.units.pushBack w.size) := rfl

theorem insertDerived_eq (w : WorkingSet) (c : Clause) :
    w.insertDerived c = w.insertWith c (w.units.pushFront w.size) := rfl

theorem toList_units_pushBack (w : WorkingSet) :
    (w.units.pushBack w.size).toList.Perm (w.size :: w.units.toList) := by
  rw [Queue.toList_pushBack]
  exact List.perm_append_singleton _ _

theorem toList_units_pushFront (w : WorkingSet) :
    (w.units.pushFront w.size).toList.Perm (w.size :: w.units.toList) :=
  List.Perm.refl _

theorem insertWith_cases (w : WorkingSet) (c : Clause) {units : Queue Nat}
    (hunits : units.toList.Perm (w.size :: w.units.toList)) :
    (w.knows c = true ∧ w.insertWith c units = (none, w)) ∨
      (w.knows c = false ∧ ∃ w', w.insertWith c units = (some w.size, w') ∧ Stored w c w') := by
  rw [insertWith]
  cases hk : w.knows c with
  | true => exact Or.inl ⟨rfl, if_pos rfl⟩
  | false =>
    refine Or.inr ⟨rfl, ?_⟩
    rw [if_neg (by simp)]
    split_ifs
    · exact ⟨_, rfl, hk, rfl, rfl, rfl, hunits.append_right _⟩
    · refine ⟨_, rfl, hk, rfl, rfl, rfl, ?_⟩
      simp only [waiting, store, Queue.toList_pushBack]
      rw [← List.append_assoc]
      exact List.perm_append_singleton _ _

theorem insertInitial_cases (w : WorkingSet) (c : Clause) :
    (w.knows c = true ∧ w.insertInitial c = (none, w)) ∨
      (w.knows c = false ∧ ∃ w', w.insertInitial c = (some w.size, w') ∧ Stored w c w') :=
  insertWith_cases w c w.toList_units_pushBack

theorem insertDerived_cases (w : WorkingSet) (c : Clause) :
    (w.knows c = true ∧ w.insertDerived c = (none, w)) ∨
      (w.knows c = false ∧ ∃ w', w.insertDerived c = (some w.size, w') ∧ Stored w c w') :=
  insertWith_cases w c w.toList_units_pushFront

/-- the pivot is the first of the units, or of the others when there are no units -/
theorem nextPivot_cases (w : WorkingSet) :
    (∃ i units, w.units.toList = i :: units.toList ∧ w.nextPivot = (some i, { w with units := units })) ∨
      (w.units.toList = [] ∧ ∃ i others, w.others.toList = i :: others.toList ∧
        w.nextPivot = (some i, { w with others := others })) ∨
      (w.waiting = [] ∧ w.nextPivot = (none, w)) := by
  rw [nextPivot]
  cases hu : w.units.pop? with
  | some p => exact Or.inl ⟨p.1, p.2, Queue.toList_of_pop? hu, rfl⟩
  | none =>
    have hunits := Queue.pop?_eq_none_iff.1 hu
    cases ho : w.others.pop? with
    | some p => exact Or.inr (Or.inl ⟨hunits, p.1, p.2, Queue.toList_of_pop? ho, rfl⟩)
    | none =>
      refine Or.inr (Or.inr ⟨?_, rfl⟩)
      rw [waiting, hunits, Queue.pop?_eq_none_iff.1 ho, List.nil_append]

theorem nextPivot_some (h : w.nextPivot = (some i, w')) : Popped w i w' := by
  rcases nextPivot_cases w with ⟨k, units, hu, e⟩ | ⟨-, k, others, ho, e⟩ | ⟨-, e⟩
  · rw [h] at e
    obtain ⟨hk, rfl⟩ := Prod.mk.inj e
    obtain rfl := Option.some.inj hk
    refine ⟨rfl, rfl, rfl, ?_⟩
    rw [waiting, hu]
    exact List.Perm.refl _
  · rw [h] at e
    obtain ⟨hk, rfl⟩ := Prod.mk.inj e
    obtain rfl := Option.some.inj hk
    refine ⟨rfl, rfl, rfl, ?_⟩
    rw [waiting, ho]
    exact List.perm_middle
  · rw [h] at e
    cases (Prod.mk.inj e).1

theorem nextPivot_eq_none (h : w.nextPivot = (none, w')) : w' = w ∧ w.waiting = [] := by
  rcases nextPivot_cases w with ⟨k, units, -, e⟩ | ⟨-, k, others, -, e⟩ | ⟨hwaiting, e⟩
  · rw [h] at e
    cases (Prod.mk.inj e).1
  · rw [h] at e
    cases (Prod.mk.inj e).1
  · rw [h] at e
    exact ⟨(Prod.mk.inj e).2, hwaiting⟩

theorem not_queued_of_waiting (h : w.waiting = []) (i : Nat) : ¬ w.Queued i := by
  rw [queued_iff, h]
  exact List.not_mem_nil

namespace Stored

theorem size (h : Stored w c w') : w'.size = w.size + 1 := by
  simp only [WorkingSet.size, h.clauses, Array.size_push]

theorem queued (h : Stored w c w') (i : Nat) : w'.Queued i ↔ i = w.size ∨ w.Queued i := by
  rw [queued_iff, queued_iff, h.waiting.mem_iff, List.mem_cons]

theorem knows_iff (h : Stored w c w') :
    w'.knows d = true ↔ w.dedup.key c = w.dedup.key d ∨ w.knows d = true := by
  simp only [knows, h.dedup, h.keys, Std.TreeSet.contains_insert, Bool.or_eq_true, beq_iff_eq,
    Std.LawfulEqCmp.compare_eq_iff_eq]

theorem knows_self (h : Stored w c w') : w'.knows c = true := h.knows_iff.2 (Or.inl rfl)

theorem toExtends (h : Stored w c w') : Extends w w' where
  dedup := h.dedup
  clauses := by
    rw [h.clauses, Array.toList_push]
    exact List.prefix_append _ _
  knows := fun _ hd => h.knows_iff.2 (Or.inr hd)
  queued := fun i hi => (h.queued i).2 (Or.inr hi)
  fresh := fun i hi hi' => by
    rw [h.size] at hi'
    exact (h.queued i).2 (Or.inl (by omega))

theorem nonempty (h : Stored w c w') (hc : c.isEmpty = false) (hw : Clause.empty ∉ w.clauses) :
    Clause.empty ∉ w'.clauses := by
  rw [h.clauses, Array.mem_push]
  rintro (hmem | rfl)
  · exact hw hmem
  · cases hc

theorem keysExact (h : Stored w c w') (hw : w.KeysExact) : w'.KeysExact := by
  intro k
  rw [h.keys, Std.TreeSet.contains_insert, Bool.or_eq_true, beq_iff_eq, Std.LawfulEqCmp.compare_eq_iff_eq, hw k]
  simp only [h.clauses, h.dedup, Array.mem_push]
  constructor
  · rintro (rfl | ⟨d, hd, hk⟩)
    · exact ⟨c, Or.inr rfl, rfl⟩
    · exact ⟨d, Or.inl hd, hk⟩
  · rintro ⟨d, hd | rfl, hk⟩
    · exact Or.inr ⟨d, hd, hk⟩
    · exact Or.inl hk

end Stored

namespace Popped

theorem queued (h : Popped w i w') (k : Nat) : w.Queued k ↔ k = i ∨ w'.Queued k := by
  rw [queued_iff, queued_iff, h.waiting.mem_iff, List.mem_cons]

theorem get? (h : Popped w i w') (k : Nat) : w'.get? k = w.get? k := by
  rw [WorkingSet.get?, WorkingSet.get?, h.clauses]

theorem knows (h : Popped w i w') (c : Clause) : w'.knows c = w.knows c := by
  rw [WorkingSet.knows, WorkingSet.knows, h.keys, h.dedup]

theorem keysExact (h : Popped w i w') (hw : w.KeysExact) : w'.KeysExact := by
  intro k
  rw [h.keys, h.clauses, h.dedup, hw k]

end Popped

theorem hasPending_iff : w.hasPending = true ↔ w.waiting ≠ [] := by
  simp only [hasPending, waiting, Bool.or_eq_true, Bool.not_eq_true', ← Bool.not_eq_true, Queue.isEmpty_iff, ne_eq,
    List.append_eq_nil_iff]
  exact not_and_or.symm

theorem waiting_of_not_hasPending (h : ¬ w.hasPending = true) : w.waiting = [] := not_not.1 (mt hasPending_iff.2 h)

theorem KeysExact.exists_of_knows (h : w.KeysExact) (hc : w.knows c = true) :
    ∃ d ∈ w.clauses, w.dedup.key d = w.dedup.key c :=
  (h _).1 hc

theorem keysExact_empty (k : Dedup) : (empty k).KeysExact := by
  intro key
  simp [empty]

/-! ## Accounts -/

namespace Accounted

variable {taken : List Nat}

theorem start (k : Dedup) : (empty k).Accounted [] where
  keys := keysExact_empty k
  distinct := List.nodup_nil
  indices := List.Perm.refl _

theorem stored (h : w.Accounted taken) (hst : Stored w c w') : w'.Accounted taken where
  keys := hst.keysExact h.keys
  distinct := by
    -- a clause with the key of `c` would make `c` known
    have hnew : w.dedup.key c ∉ w.clauses.toList.map w.dedup.key := by
      intro hmem
      obtain ⟨d, hd, hkey⟩ := List.mem_map.1 hmem
      have hknown : w.knows c = true := (h.keys _).2 ⟨d, Array.mem_toList_iff.1 hd, hkey⟩
      rw [hst.unknown] at hknown
      cases hknown
    rw [hst.clauses, hst.dedup, Array.toList_push, List.map_append, List.map_singleton,
      ← List.concat_eq_append]
    exact h.distinct.concat hnew
  indices := by
    rw [hst.size, List.range_succ]
    calc
      List.Perm (taken ++ w'.waiting) (taken ++ w.size :: w.waiting) := hst.waiting.append_left taken
      List.Perm _ (w.size :: (taken ++ w.waiting)) := List.perm_middle
      List.Perm _ (w.size :: List.range w.size) := h.indices.cons _
      List.Perm _ (List.range w.size ++ [w.size]) := (List.perm_append_singleton _ _).symm

theorem popped (h : w.Accounted taken) (hp : Popped w i w') : w'.Accounted (taken ++ [i]) where
  keys := hp.keysExact h.keys
  distinct := by
    rw [hp.clauses, hp.dedup]
    exact h.distinct
  indices := by
    have hsize : w'.size = w.size := by rw [size, size, hp.clauses]
    rw [hsize, List.append_assoc, List.singleton_append]
    exact (hp.waiting.append_left taken).symm.trans h.indices

/-- every clause was taken or waits -/
theorem length_taken_add_waiting (h : w.Accounted taken) : taken.length + w.waiting.length = w.size := by
  have hlen := h.indices.length_eq
  rwa [List.length_append, List.length_range] at hlen

/-- a pivot has the index of a stored clause -/
theorem pivot_lt (h : w.Accounted taken) (hp : Popped w i w') : i < w'.size := by
  have hmem : i ∈ taken ++ w.waiting := by
    rw [List.mem_append, hp.waiting.mem_iff]
    exact Or.inr List.mem_cons_self
  rw [size, hp.clauses]
  exact List.mem_range.1 (h.indices.mem_iff.1 hmem)

theorem nodup (h : w.Accounted taken) : w.clauses.toList.Nodup := List.Nodup.of_map _ h.distinct

end Accounted

/-! ## Growth -/

namespace Extends

theorem refl (w : WorkingSet) : Extends w w :=
  ⟨rfl, List.prefix_refl _, fun _ h => h, fun _ h => h, fun i h h' => by omega⟩

theorem get? (h : Extends w w') (hi : w.get? i = some c) : w'.get? i = some c := by
  simp only [WorkingSet.get?, ← Array.getElem?_toList] at hi ⊢
  obtain ⟨l, hl⟩ := h.clauses
  rw [← hl]
  exact List.getElem?_append_left (List.getElem?_eq_some_iff.1 hi).1 ▸ hi

theorem mem (h : Extends w w') (hc : c ∈ w.clauses) : c ∈ w'.clauses := by
  obtain ⟨i, hi⟩ := mem_clauses_iff.1 hc
  exact mem_clauses_iff.2 ⟨i, h.get? hi⟩

theorem trans (h1 : Extends w w') (h2 : Extends w' w'') : Extends w w'' := by
  refine ⟨h2.dedup.trans h1.dedup, h1.clauses.trans h2.clauses, fun c hc => h2.knows c (h1.knows c hc),
    fun i hi => h2.queued i (h1.queued i hi), fun i hi hi' => ?_⟩
  by_cases hlt : i < w'.size
  · exact h2.queued i (h1.fresh i hi hlt)
  · exact h2.fresh i (by omega) hi'

end Extends

/-! ## Adding the input -/

theorem insertAll_cons (w : WorkingSet) (c : Clause) (cs : List Clause) :
    w.insertAll (c :: cs) = (w.insertInitial c).2.insertAll cs := rfl

theorem insertInitial_extends (w : WorkingSet) (c : Clause) : Extends w (w.insertInitial c).2 := by
  rcases insertInitial_cases w c with ⟨-, h⟩ | ⟨-, w', h, hst⟩
  · rw [h]
    exact Extends.refl w
  · rw [h]
    exact hst.toExtends

theorem insertInitial_knows (w : WorkingSet) (c : Clause) : (w.insertInitial c).2.knows c = true := by
  rcases insertInitial_cases w c with ⟨hk, h⟩ | ⟨-, w', h, hst⟩
  · rw [h]
    exact hk
  · rw [h]
    exact hst.knows_self

theorem insertAll_extends (w : WorkingSet) (cs : List Clause) : Extends w (w.insertAll cs) := by
  induction cs generalizing w with
  | nil => exact Extends.refl w
  | cons c cs ih =>
    rw [insertAll_cons]
    exact (insertInitial_extends w c).trans (ih _)

/-- what storing a clause keeps, adding the input keeps -/
theorem insertAll_induction {P : WorkingSet → Prop} {cs : List Clause}
    (hstep : ∀ c ∈ cs, ∀ w w', P w → Stored w c w' → P w') (h : P w) : P (w.insertAll cs) := by
  induction cs generalizing w with
  | nil => exact h
  | cons c cs ih =>
    rw [insertAll_cons]
    have hrest := fun d hd => hstep d (List.mem_cons_of_mem c hd)
    rcases insertInitial_cases w c with ⟨-, e⟩ | ⟨-, w', e, hst⟩
    · rw [e]
      exact ih hrest h
    · rw [e]
      exact ih hrest (hstep c List.mem_cons_self w w' h hst)

theorem insertAll_keysExact {cs : List Clause} (h : w.KeysExact) : (w.insertAll cs).KeysExact :=
  insertAll_induction (fun _ _ _ _ hw hst => hst.keysExact hw) h

theorem insertAll_accounted {cs : List Clause} (h : w.Accounted []) : (w.insertAll cs).Accounted [] :=
  insertAll_induction (P := fun w => w.Accounted []) (fun _ _ _ _ hw hst => hw.stored hst) h

theorem mem_insertAll {cs : List Clause} (h : c ∈ (w.insertAll cs).clauses) : c ∈ w.clauses ∨ c ∈ cs := by
  induction cs generalizing w with
  | nil => exact Or.inl h
  | cons d cs ih =>
    rw [insertAll_cons] at h
    rcases ih h with h | h
    · rcases insertInitial_cases w d with ⟨-, e⟩ | ⟨-, w', e, hst⟩
      · rw [e] at h
        exact Or.inl h
      · rw [e] at h
        have h : c ∈ w'.clauses := h
        rw [hst.clauses, Array.mem_push] at h
        rcases h with h | rfl
        · exact Or.inl h
        · exact Or.inr List.mem_cons_self
    · exact Or.inr (List.mem_cons_of_mem _ h)

/-- of the clauses with one key only the first is stored -/
theorem find?_of_mem_insertAll {cs : List Clause} (h : c ∈ (w.insertAll cs).clauses) :
    c ∈ w.clauses ∨ (w.knows c = false ∧ cs.find? (fun d => w.dedup.key d == w.dedup.key c) = some c) := by
  induction cs generalizing w with
  | nil => exact Or.inl h
  | cons d cs ih =>
    rw [insertAll_cons] at h
    have hext := insertInitial_extends w d
    rcases ih h with h | ⟨hunknown, hfind⟩
    · rcases insertInitial_cases w d with ⟨-, e⟩ | ⟨hd, w', e, hst⟩
      · rw [e] at h
        exact Or.inl h
      · rw [e] at h
        have h : c ∈ w'.clauses := h
        rw [hst.clauses, Array.mem_push] at h
        rcases h with h | rfl
        · exact Or.inl h
        · exact Or.inr ⟨hd, by simp⟩
    · rw [hext.dedup] at hfind
      -- the clause before it has another key, since that key is known by now
      have hkey : w.dedup.key d ≠ w.dedup.key c := by
        intro hkey
        have hknown := insertInitial_knows w d
        rw [knows, hext.dedup, hkey, ← hext.dedup, ← knows, hunknown] at hknown
        cases hknown
      refine Or.inr ⟨?_, by rw [List.find?_cons_of_neg (by simpa using hkey), hfind]⟩
      by_contra hknown
      rw [hext.knows c (by simpa using hknown)] at hunknown
      cases hunknown

theorem knows_insertAll {cs : List Clause} (h : c ∈ cs) : (w.insertAll cs).knows c = true := by
  induction cs generalizing w with
  | nil => cases h
  | cons d cs ih =>
    rw [insertAll_cons]
    rcases List.mem_cons.1 h with rfl | h
    · exact (insertAll_extends _ cs).knows c (insertInitial_knows w c)
    · exact ih h

/-- **The first clause with each key is stored,** and no other clause. -/
theorem mem_insertAll_iff {k : Dedup} {cs : List Clause} :
    c ∈ ((empty k).insertAll cs).clauses ↔ cs.find? (fun d => k.key d == k.key c) = some c := by
  have hstored : ∀ {d : Clause}, d ∈ ((empty k).insertAll cs).clauses →
      cs.find? (fun e => k.key e == k.key d) = some d := by
    intro d hd
    rcases find?_of_mem_insertAll hd with hd | ⟨-, hfind⟩
    · simp [empty] at hd
    · exact hfind
  refine ⟨hstored, fun hfind => ?_⟩
  -- some clause with the key of `c` is stored, and it is the first one as `c` is
  have hdedup : ((empty k).insertAll cs).dedup = k := (insertAll_extends (empty k) cs).dedup
  have hknown : ((empty k).insertAll cs).knows c = true := knows_insertAll (List.mem_of_find?_eq_some hfind)
  obtain ⟨d, hd, hkey⟩ := (insertAll_keysExact (keysExact_empty k)).exists_of_knows hknown
  rw [hdedup] at hkey
  have hfirst := hstored hd
  rw [hkey, hfind] at hfirst
  obtain rfl := Option.some.inj hfirst
  exact hd

end Refutation.WorkingSet
