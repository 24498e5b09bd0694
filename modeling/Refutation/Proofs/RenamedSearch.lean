/-
Searches on renamed clauses.

A search looks at the variables of its clauses only through resolution and through the keys of clauses. Resolution
commutes with an injective renaming, and the keys of well-formed clauses tell renamed clauses apart as they tell the
clauses themselves apart (`Dedup.key_rename`). So two searches, one on well-formed clauses and one on the same clauses
renamed, go in step: their states stay `Renamed`, which each operation of a search keeps, from the storing of one clause
to the whole run (`proveClauses_rename`).

A renaming of one clause alone is such a renaming when it does not change which variables the clause shares with the
others (`proved_rename_clause`). When it does, the verdict may change, since clauses are not renamed apart before they are
resolved (`proved_depends_on_sharing`).
-/
import Refutation.Proofs.Derivations
import Refutation.Proofs.WellFormed

namespace Refutation

variable {π : String → String}

/-- the entry with its clauses renamed -/
def Journal.Entry.rename (π : String → String) : Entry → Entry
  | .added c => .added (c.rename π)
  | .repeated c => .repeated (c.rename π)
  | .pivot step c => .pivot step (c.rename π)
  | .resolved left right c => .resolved (left.rename π) (right.rename π) (c.rename π)
  | e => e

/-- the clause is well formed, and stays so when it is renamed -/
structure Clause.Renamable (π : String → String) (c : Clause) : Prop where
  wellFormed : c.WellFormed
  renamed : (c.rename π).WellFormed

theorem Clause.Renamable.resolvent (hπ : Function.Injective π) {c d : Clause} (hc : c.Renamable π) (hd : d.Renamable π)
    {u : Unifier} {r : Resolvent} (h : r ∈ resolvents u c d) : r.clause.Renamable π where
  wellFormed := hc.wellFormed.resolvent hd.wellFormed h
  renamed := by
    have hmem : r.clause.rename π ∈ (resolvents u (c.rename π) (d.rename π)).map Resolvent.clause := by
      rw [resolvents_rename hπ]
      exact List.mem_map_of_mem h
    obtain ⟨r', hr', heq⟩ := List.mem_map.1 hmem
    rw [← heq]
    exact hc.renamed.resolvent hd.renamed hr'

/-! ## Keys -/

namespace Dedup

variable {k : Dedup} {c d : Clause}

theorem same_rename (hπ : Function.Injective π) : k.Same (c.rename π) (d.rename π) ↔ k.Same c d := by
  cases k with
  | canonical => exact (Clause.rename_injective hπ).eq_iff
  | literalSet =>
    have hmem : ∀ (e : Clause) (l : Literal), l.rename π ∈ (e.rename π).literals ↔ l ∈ e.literals :=
      fun e l => List.mem_map_of_injective (Literal.rename_injective hπ)
    constructor
    · intro h l
      rw [← hmem c, ← hmem d]
      exact h (l.rename π)
    · intro h m
      constructor
      · intro hm
        obtain ⟨l, hl, rfl⟩ := List.mem_map.1 hm
        exact (hmem d l).2 ((h l).1 hl)
      · intro hm
        obtain ⟨l, hl, rfl⟩ := List.mem_map.1 hm
        exact (hmem c l).2 ((h l).2 hl)

/-- renamed clauses share a key exactly when the clauses do -/
theorem key_rename (hπ : Function.Injective π) (hc : c.Renamable π) (hd : d.Renamable π) :
    k.key (c.rename π) = k.key (d.rename π) ↔ k.key c = k.key d := by
  rw [hc.renamed.key_eq_iff hd.renamed, same_rename hπ, hc.wellFormed.key_eq_iff hd.wellFormed]

end Dedup

/-! ## Working sets -/

namespace WorkingSet

/-- `w'` is `w` with its clauses renamed -/
structure Renamed (π : String → String) (w w' : WorkingSet) : Prop where
  dedup : w'.dedup = w.dedup
  clauses : w'.clauses = w.clauses.map (Clause.rename π)
  units : w'.units = w.units
  others : w'.others = w.others
  knows : ∀ c, c.Renamable π → w'.knows (c.rename π) = w.knows c
  renamable : ∀ c ∈ w.clauses, c.Renamable π

namespace Renamed

variable {w w' v v' : WorkingSet} {c : Clause}

theorem start (k : Dedup) : Renamed π (.empty k) (.empty k) where
  dedup := rfl
  clauses := by simp [WorkingSet.empty]
  units := rfl
  others := rfl
  knows := fun _ _ => by simp [WorkingSet.knows, WorkingSet.empty]
  renamable := fun _ hc => by simp [WorkingSet.empty] at hc

theorem size (h : Renamed π w w') : w'.size = w.size := by
  rw [WorkingSet.size, WorkingSet.size, h.clauses, Array.size_map]

theorem get? (h : Renamed π w w') (i : Nat) : w'.get? i = (w.get? i).map (Clause.rename π) := by
  rw [WorkingSet.get?, WorkingSet.get?, h.clauses, Array.getElem?_map]

theorem hasPending (h : Renamed π w w') : w'.hasPending = w.hasPending := by
  rw [WorkingSet.hasPending, WorkingSet.hasPending, h.units, h.others]

theorem partners (h : Renamed π w w') (pivot : Clause) : w'.partners (pivot.rename π) = w.partners pivot := by
  have hunits : w'.unitIndices = w.unitIndices := by
    simp only [unitIndices, h.size, h.get?, Option.any_map, Clause.isUnit_rename]
  simp only [WorkingSet.partners, hunits, h.size, Clause.isUnit_rename]

theorem stored (hπ : Function.Injective π) (h : Renamed π w w') (hc : c.Renamable π) (hst : w.Stored c v)
    (hst' : w'.Stored (c.rename π) v') (hunits : v'.units = v.units) (hothers : v'.others = v.others) :
    Renamed π v v' where
  dedup := by rw [hst'.dedup, hst.dedup, h.dedup]
  clauses := by rw [hst'.clauses, hst.clauses, h.clauses, Array.map_push]
  units := hunits
  others := hothers
  knows := by
    intro d hd
    rw [Bool.eq_iff_iff, hst'.knows_iff, hst.knows_iff, h.dedup, Dedup.key_rename hπ hc hd, h.knows d hd]
  renamable := by
    intro d hd
    rw [hst.clauses, Array.mem_push] at hd
    rcases hd with hd | rfl
    · exact h.renamable d hd
    · exact hc

/-- two additions with the effects of `insertWith_cases` go in step if they leave the same queues -/
theorem insert (hπ : Function.Injective π) (h : Renamed π w w') (hc : c.Renamable π) {r r' : Option Nat × WorkingSet}
    (hr : (w.knows c = true ∧ r = (none, w)) ∨ (w.knows c = false ∧ ∃ v, r = (some w.size, v) ∧ w.Stored c v))
    (hr' : (w'.knows (c.rename π) = true ∧ r' = (none, w')) ∨
      (w'.knows (c.rename π) = false ∧ ∃ v, r' = (some w'.size, v) ∧ w'.Stored (c.rename π) v))
    (hunits : r'.2.units = r.2.units) (hothers : r'.2.others = r.2.others) :
    ∃ v', r' = (r.1, v') ∧ Renamed π r.2 v' := by
  rw [h.knows c hc] at hr'
  rcases hr with ⟨hk, rfl⟩ | ⟨hk, v, rfl, hst⟩
  · rcases hr' with ⟨-, rfl⟩ | ⟨hk', -⟩
    · exact ⟨w', rfl, h⟩
    · rw [hk] at hk'
      cases hk'
  · rcases hr' with ⟨hk', -⟩ | ⟨-, v', rfl, hst'⟩
    · rw [hk] at hk'
      cases hk'
    · exact ⟨v', by rw [h.size], h.stored hπ hc hst hst' hunits hothers⟩

theorem insertInitial (hπ : Function.Injective π) (h : Renamed π w w') (hc : c.Renamable π) :
    ∃ v', w'.insertInitial (c.rename π) = ((w.insertInitial c).1, v') ∧ Renamed π (w.insertInitial c).2 v' := by
  refine h.insert hπ hc (insertInitial_cases w c) (insertInitial_cases w' _) ?_ ?_
  · simp only [WorkingSet.insertInitial, h.knows c hc, Clause.isUnit_rename, h.units, h.size]
    split_ifs <;> first | exact h.units | rfl
  · simp only [WorkingSet.insertInitial, h.knows c hc, Clause.isUnit_rename, h.others, h.size]
    split_ifs <;> first | exact h.others | rfl

theorem insertDerived (hπ : Function.Injective π) (h : Renamed π w w') (hc : c.Renamable π) :
    ∃ v', w'.insertDerived (c.rename π) = ((w.insertDerived c).1, v') ∧ Renamed π (w.insertDerived c).2 v' := by
  refine h.insert hπ hc (insertDerived_cases w c) (insertDerived_cases w' _) ?_ ?_
  · simp only [WorkingSet.insertDerived, h.knows c hc, Clause.isUnit_rename, h.units, h.size]
    split_ifs <;> first | exact h.units | rfl
  · simp only [WorkingSet.insertDerived, h.knows c hc, Clause.isUnit_rename, h.others, h.size]
    split_ifs <;> first | exact h.others | rfl

theorem nextPivot (h : Renamed π w w') : ∃ v', w'.nextPivot = (w.nextPivot.1, v') ∧ Renamed π w.nextPivot.2 v' := by
  simp only [WorkingSet.nextPivot, h.units, h.others]
  rcases w.units.pop? with _ | ⟨i, rest⟩
  · rcases w.others.pop? with _ | ⟨i, rest⟩
    · exact ⟨w', rfl, h⟩
    · exact ⟨_, rfl, h.dedup, h.clauses, rfl, rfl, h.knows, h.renamable⟩
  · exact ⟨_, rfl, h.dedup, h.clauses, rfl, rfl, h.knows, h.renamable⟩

end Renamed

end WorkingSet

theorem Signature.ofClauses_rename (π : String → String) (cs : List Clause) :
    Signature.ofClauses (cs.map (Clause.rename π)) = Signature.ofClauses cs := by
  have hatom : ∀ (s : Signature) (l : Literal), s.addAtom (l.rename π).atom = s.addAtom l.atom := by
    intro s l
    simp [addAtom, Literal.rename, Atom.rename, Atom.arity]
  have hclause : ∀ (s : Signature) (c : Clause), s.addClause (c.rename π) = s.addClause c := by
    intro s c
    simp only [addClause, Clause.rename, List.foldl_map, hatom]
  simp only [ofClauses, List.foldl_map, hclause]

namespace Search

/-- the inference with its clauses renamed -/
def Inference.rename (π : String → String) (x : Inference) : Inference :=
  ⟨x.left.rename π, x.right.rename π, x.resolvent.rename π⟩

/-- the attempt with the clauses of its journal renamed -/
def Attempt.rename (π : String → String) (a : Attempt) : Attempt :=
  { a with journal := a.journal.map (Journal.Entry.rename π) }

variable {settings : Settings}

namespace State

/-- the inferences of a renamed pivot are the renamed inferences, in the same order -/
theorem inferences_rename (hπ : Function.Injective π) {w w' : WorkingSet} (h : w.Renamed π w') (i : Nat)
    (pivot : Clause) :
    inferences settings w' i (pivot.rename π) = (inferences settings w i pivot).map (Inference.rename π) := by
  simp only [inferences, otherPartners, h.partners, List.map_flatMap]
  refine List.flatMap_congr fun j _ => ?_
  simp only [inferencesWith, h.get? j]
  cases w.get? j with
  | none => rfl
  | some partner =>
    have hresolvents := settings.pairSelection.resolvents_rename hπ settings.unifier pivot partner
    have hpairs := congrArg (List.map (Inference.mk (pivot.rename π) (partner.rename π))) hresolvents
    simp only [List.map_map] at hpairs
    simp only [Option.map_some, List.map_map]
    exact hpairs

/-- `s'` is `s` with its clauses renamed -/
structure Renamed (π : String → String) (s s' : State) : Prop where
  working : s.working.Renamed π s'.working
  steps : s'.steps = s.steps
  generated : s'.generated = s.generated
  journal : s'.journal = s.journal.map (Journal.Entry.rename π)

namespace Renamed

variable {s s' t : State}

theorem note (h : Renamed π s s') (e : Journal.Entry) : Renamed π (s.note e) (s'.note (e.rename π)) where
  working := h.working
  steps := h.steps
  generated := h.generated
  journal := by rw [note_journal, note_journal, h.journal, Array.map_push]

theorem count (h : Renamed π s s') : Renamed π s.count s'.count where
  working := h.working
  steps := h.steps
  generated := congrArg (· + 1) h.generated
  journal := h.journal

theorem replace (h : Renamed π s s') {w w' : WorkingSet} (hw : w.Renamed π w') :
    Renamed π { s with working := w } { s' with working := w' } where
  working := hw
  steps := h.steps
  generated := h.generated
  journal := h.journal

theorem addClause (hπ : Function.Injective π) (h : Renamed π s s') {c : Clause} (hc : c.Renamable π) :
    Renamed π (s.addClause c) (s'.addClause (c.rename π)) := by
  obtain ⟨v', hv', hv⟩ := h.working.insertInitial hπ hc
  rcases hins : s.working.insertInitial c with ⟨_ | k, v⟩
  · rw [hins] at hv'
    simp only [State.addClause, hins, hv']
    exact h.note (.repeated c)
  · rw [hins] at hv' hv
    simp only [State.addClause, hins, hv']
    exact (h.replace hv).note (.added c)

theorem addClauses (hπ : Function.Injective π) (h : Renamed π s s') {cs : List Clause}
    (hcs : ∀ c ∈ cs, c.Renamable π) :
    Renamed π (cs.foldl State.addClause s) ((cs.map (Clause.rename π)).foldl State.addClause s') := by
  induction cs generalizing s s' with
  | nil => exact h
  | cons c cs ih =>
    have hc := hcs c List.mem_cons_self
    exact ih (h.addClause hπ hc) fun d hd => hcs d (List.mem_cons_of_mem c hd)

/-! ## Turns -/

/-- two searches that go in step drop, store and find the empty clause at the same inferences -/
theorem absorb (hπ : Function.Injective π) {xs : List Inference} (hxs : ∀ x ∈ xs, x.resolvent.Renamable π)
    (h : Renamed π s s') {found : Bool} (habsorb : State.absorb xs s = (t, found)) :
    ∃ t', State.absorb (xs.map (Inference.rename π)) s' = (t', found) ∧ Renamed π t t' := by
  induction xs generalizing s s' with
  | nil =>
    obtain ⟨rfl, rfl⟩ := Prod.mk.inj habsorb
    exact ⟨s', rfl, h⟩
  | cons x xs ih =>
    have hrest := fun y hy => hxs y (List.mem_cons_of_mem x hy)
    have hempty : (x.rename π).resolvent.isEmpty = x.resolvent.isEmpty := Clause.isEmpty_rename x.resolvent
    simp only [List.map_cons, State.absorb, hempty] at habsorb ⊢
    split_ifs at habsorb ⊢
    · obtain ⟨rfl, rfl⟩ := Prod.mk.inj habsorb
      exact ⟨_, rfl, h.count.note (.resolved x.left x.right x.resolvent)⟩
    · obtain ⟨v', hv', hv⟩ := h.working.insertDerived hπ (hxs x List.mem_cons_self)
      have hv' : s'.working.insertDerived (x.rename π).resolvent = _ := hv'
      rcases hins : s.working.insertDerived x.resolvent with ⟨_ | k, v⟩
      · rw [hins] at hv'
        simp only [hins] at habsorb
        simp only [hv']
        exact ih hrest h.count habsorb
      · rw [hins] at hv' hv
        simp only [hins] at habsorb
        simp only [hv']
        exact ih hrest ((h.count.replace hv).note (.resolved x.left x.right x.resolvent)) habsorb

theorem turn (hπ : Function.Injective π) (h : Renamed π s s') {w w' : WorkingSet} (hw : w.Renamed π w') {i : Nat}
    {found : Bool} (hturn : State.turn settings s i w = (t, found)) :
    ∃ t', State.turn settings s' i w' = (t', found) ∧ Renamed π t t' := by
  have hopened : Renamed π { s with working := w, steps := s.steps + 1 }
      { s' with working := w', steps := s'.steps + 1 } := ⟨hw, congrArg (· + 1) h.steps, h.generated, h.journal⟩
  have hget := hw.get? i
  cases hi : w.get? i with
  | none =>
    rw [hi] at hget
    simp only [State.turn, hi] at hturn
    obtain ⟨rfl, rfl⟩ := Prod.mk.inj hturn
    exact ⟨_, by simp only [State.turn, hget, Option.map_none], hopened⟩
  | some pivot =>
    rw [hi] at hget
    have hpivot : pivot.Renamable π := hw.renamable pivot (WorkingSet.mem_clauses_iff.2 ⟨i, hi⟩)
    have hentry : Journal.Entry.pivot (s'.steps + 1) (pivot.rename π) =
        (Journal.Entry.pivot (s.steps + 1) pivot).rename π := by rw [h.steps, Journal.Entry.rename]
    rw [turn_of_get? hi] at hturn
    rw [turn_of_get? hget, inferences_rename hπ hw, hentry]
    refine absorb hπ (fun x hx => ?_) (hopened.note _) hturn
    obtain ⟨hleft, hright, r, hr, hclause⟩ := mem_inferences hx
    rw [hleft] at hr
    rw [← hclause]
    exact hpivot.resolvent hπ (hw.renamable _ hright) (PairSelection.resolvents_subset _ _ _ _ hr)

theorem saturate (hπ : Function.Injective π) (h : Renamed π s s') {budget : Nat} {τ : Termination}
    (hsat : State.saturate settings budget s = (t, τ)) :
    ∃ t', State.saturate settings budget s' = (t', τ) ∧ Renamed π t t' := by
  induction budget generalizing s s' with
  | zero =>
    obtain ⟨rfl, rfl⟩ := Prod.mk.inj hsat
    exact ⟨s', by rw [State.saturate, h.working.hasPending], h⟩
  | succ budget ih =>
    obtain ⟨v', hv', hv⟩ := h.working.nextPivot
    simp only [State.saturate] at hsat ⊢
    rcases hpivot : s.working.nextPivot with ⟨_ | i, v⟩
    · rw [hpivot] at hsat hv'
      obtain ⟨rfl, rfl⟩ := Prod.mk.inj hsat
      exact ⟨s', by rw [hv'], h⟩
    · rw [hpivot] at hsat hv' hv
      rcases hresult : State.turn settings s i v with ⟨s1, _ | _⟩
      · obtain ⟨t', ht', hrenamed⟩ := h.turn hπ hv hresult
        simp only [hresult] at hsat
        simp only [hv', ht']
        exact ih hrenamed hsat
      · obtain ⟨t', ht', hrenamed⟩ := h.turn hπ hv hresult
        simp only [hresult] at hsat
        obtain ⟨rfl, rfl⟩ := Prod.mk.inj hsat
        exact ⟨t', by simp only [hv', ht'], hrenamed⟩

/-! ## The run -/

theorem noteConflicts (h : Renamed π s s') : Renamed π s.noteConflicts s'.noteConflicts := by
  have hsignature : Signature.ofClauses s'.working.clauses.toList = Signature.ofClauses s.working.clauses.toList := by
    rw [h.working.clauses, Array.toList_map, Signature.ofClauses_rename]
  rw [noteConflicts_eq, noteConflicts_eq, hsignature, h.journal]
  refine ⟨h.working, h.steps, h.generated, ?_⟩
  simp [Journal.Entry.rename, Function.comp_def]

theorem search (hπ : Function.Injective π) (h : Renamed π s s') {τ : Termination}
    (hsearch : s.search settings = (t, τ)) : ∃ t', s'.search settings = (t', τ) ∧ Renamed π t t' := by
  have hisEmpty : s'.working.isEmpty = s.working.isEmpty := by
    simp [WorkingSet.isEmpty, Array.isEmpty, h.working.clauses]
  have hany : s'.working.clauses.any Clause.isEmpty = s.working.clauses.any Clause.isEmpty := by
    simp [h.working.clauses]
  simp only [State.search, hisEmpty, hany] at hsearch ⊢
  split_ifs at hsearch ⊢
  · obtain ⟨rfl, rfl⟩ := Prod.mk.inj hsearch
    exact ⟨s', rfl, h⟩
  · obtain ⟨rfl, rfl⟩ := Prod.mk.inj hsearch
    exact ⟨_, rfl, h.noteConflicts⟩
  · exact h.noteConflicts.saturate hπ hsearch

theorem conclude (h : Renamed π s s') (τ : Termination) :
    s'.conclude settings τ = (s.conclude settings τ).rename π := by
  have hclosing : s'.closing settings τ = (s.closing settings τ).rename π := by
    cases τ <;> simp only [State.closing, Journal.Entry.rename, h.steps]
  have hfinished : Journal.Entry.finished τ s'.steps s'.working.size =
      (Journal.Entry.finished τ s.steps s.working.size).rename π := by
    rw [h.steps, h.working.size]
    rfl
  have hnoted := (h.note (s.closing settings τ)).note (.finished τ s.steps s.working.size)
  simp only [State.conclude, Attempt.rename, hclosing, hfinished, hnoted.steps, hnoted.generated, hnoted.journal,
    hnoted.working.size, Array.toList_map]

theorem run (hπ : Function.Injective π) (h : Renamed π s s') : s'.run settings = (s.run settings).rename π := by
  obtain ⟨t', ht', hrenamed⟩ := h.search hπ (Prod.eta (s.search settings)).symm
  simp only [State.run, ht']
  exact hrenamed.conclude _

end Renamed

end State

/-- **A search does not depend on the names of variables.** On clauses that are all renamed by one injective map it does
what it does on the clauses themselves, with the clauses that it notes renamed. -/
theorem proveClauses_rename (hπ : Function.Injective π) {input : List Clause} (hinput : ∀ c ∈ input, c.Renamable π) :
    proveClauses settings (input.map (Clause.rename π)) = (proveClauses settings input).rename π := by
  have hstart : State.Renamed π (.start settings) (.start settings) :=
    ⟨WorkingSet.Renamed.start settings.dedup, rfl, rfl, by simp [State.start]⟩
  exact (hstart.addClauses hπ hinput).run hπ

end Search

/-! ## Renaming one clause -/

/-- the variables of the clause get names of variables, different ones for different variables -/
structure Clause.Renaming (c : Clause) (ρ : String → String) : Prop where
  injective : ∀ x ∈ c.vars, ∀ y ∈ c.vars, ρ x = ρ y → x = y
  wellFormed : ∀ x ∈ c.vars, (Term.var (ρ x)).WellFormed

/-- the renaming leaves it as it is which variables of the clause are variables of the others -/
def Clause.KeepsSharing (c : Clause) (ρ : String → String) (others : List Clause) : Prop :=
  ∀ d ∈ others, ∀ y ∈ d.vars, ∀ x ∈ c.vars, ρ x = y ↔ x = y

/-- what renames one clause and keeps its sharing renames all the clauses, the others to themselves -/
theorem Clause.Renaming.exists_injective {before after : List Clause} {c : Clause} {ρ : String → String}
    (hρ : c.Renaming ρ) (hsharing : c.KeepsSharing ρ (before ++ after)) :
    ∃ π : String → String, Function.Injective π ∧
      (before ++ c :: after).map (Clause.rename π) = before ++ c.rename ρ :: after := by
  let f : String → String := fun x => if x ∈ c.vars then ρ x else x
  have hf : ∀ x ∈ c.vars, f x = ρ x := fun x hx => if_pos hx
  have hfixed : ∀ d ∈ before ++ after, ∀ y ∈ d.vars, f y = y := by
    intro d hd y hy
    by_cases hyc : y ∈ c.vars
    · rw [hf y hyc]
      exact (hsharing d hd y hy y hyc).2 rfl
    · exact if_neg hyc
  -- a variable of the clause and one of another clause meet only if they are the same
  have hcross : ∀ x ∈ c.vars, ∀ d ∈ before ++ after, ∀ y ∈ d.vars, f x = f y → x = y := by
    intro x hx d hd y hy hxy
    rw [hf x hx, hfixed d hd y hy] at hxy
    exact (hsharing d hd y hy x hx).1 hxy
  have hinj : ∀ x ∈ c.vars ++ (before ++ after).flatMap Clause.vars,
      ∀ y ∈ c.vars ++ (before ++ after).flatMap Clause.vars, f x = f y → x = y := by
    intro x hx y hy hxy
    rcases List.mem_append.1 hx with hx | hx
    · rcases List.mem_append.1 hy with hy | hy
      · rw [hf x hx, hf y hy] at hxy
        exact hρ.injective x hx y hy hxy
      · obtain ⟨e, he, hy⟩ := List.mem_flatMap.1 hy
        exact hcross x hx e he y hy hxy
    · obtain ⟨d, hd, hx⟩ := List.mem_flatMap.1 hx
      rcases List.mem_append.1 hy with hy | hy
      · exact (hcross y hy d hd x hx hxy.symm).symm
      · obtain ⟨e, he, hy⟩ := List.mem_flatMap.1 hy
        rwa [hfixed d hd x hx, hfixed e he y hy] at hxy
  obtain ⟨π, hπ, hagree⟩ := exists_injective_extension hinj
  have hclause : c.rename π = c.rename ρ :=
    Clause.rename_congr fun x hx => (hagree x (List.mem_append_left _ hx)).trans (hf x hx)
  have hothers : ∀ d ∈ before ++ after, d.rename π = d := by
    intro d hd
    refine Clause.rename_of_fixed fun y hy => ?_
    rw [hagree y (List.mem_append_right _ (List.mem_flatMap.2 ⟨d, hd, hy⟩)), hfixed d hd y hy]
  refine ⟨π, hπ, ?_⟩
  rw [List.map_append, List.map_cons, hclause,
    List.map_congr_left fun d hd => hothers d (List.mem_append_left _ hd),
    List.map_congr_left fun d hd => hothers d (List.mem_append_right _ hd), List.map_id', List.map_id']

namespace Search

/-- **Names of variables are local up to sharing.** Under every configuration, renaming the variables of one well-formed
clause without changing which variables it shares with the others changes neither verdict nor termination nor counters. -/
theorem proved_rename_clause (settings : Settings) (before after : List Clause) (c : Clause) (ρ : String → String)
    (hinput : ∀ d ∈ before ++ c :: after, d.WellFormed) (hρ : c.Renaming ρ)
    (hsharing : c.KeepsSharing ρ (before ++ after)) :
    let renamed := (proveClauses settings (before ++ c.rename ρ :: after)).outcome
    let plain := (proveClauses settings (before ++ c :: after)).outcome
    renamed.proved = plain.proved ∧ renamed.termination = plain.termination ∧ renamed.tally = plain.tally := by
  obtain ⟨π, hπ, hmap⟩ := hρ.exists_injective hsharing
  have hrenamed : ∀ e ∈ before ++ c.rename ρ :: after, e.WellFormed := by
    intro e he
    rcases List.mem_append.1 he with he | he
    · exact hinput e (List.mem_append_left _ he)
    · rcases List.mem_cons.1 he with rfl | he
      · exact (hinput c (by simp)).rename hρ.wellFormed
      · exact hinput e (by simp [he])
  have hrenamable : ∀ d ∈ before ++ c :: after, d.Renamable π := by
    intro d hd
    refine ⟨hinput d hd, hrenamed _ ?_⟩
    rw [← hmap]
    exact List.mem_map_of_mem hd
  rw [← hmap, proveClauses_rename hπ hrenamable]
  exact ⟨rfl, rfl, rfl⟩

/-- `P(x, y)`, `¬P(x, z) ∨ Q(z, x)` and `¬Q(A, B)`: the second clause shares `x` and keeps it when `z` becomes `w` -/
theorem proved_rename_linked :
    let settings : Settings := { unifier := .complete, pairSelection := .all }
    let before : List Clause := [⟨[⟨true, "P", [.var "x", .var "y"]⟩]⟩]
    let c : Clause := ⟨[⟨false, "P", [.var "x", .var "z"]⟩, ⟨true, "Q", [.var "z", .var "x"]⟩]⟩
    let after : List Clause := [⟨[⟨false, "Q", [.const "A", .const "B"]⟩]⟩]
    let ρ : String → String := fun x => if x = "z" then "w" else x
    (∀ d ∈ before ++ c :: after, d.WellFormed) ∧ c.Renaming ρ ∧ c.KeepsSharing ρ (before ++ after) ∧
      (proveClauses settings (before ++ c :: after)).outcome.proved = true ∧
      (proveClauses settings (before ++ c.rename ρ :: after)).outcome.proved = true := by
  intro settings before c after ρ
  have hinput : ∀ d ∈ before ++ c :: after, d.WellFormed := by decide +kernel
  have hρ : c.Renaming ρ := ⟨by decide +kernel, by decide +kernel⟩
  have hsharing : c.KeepsSharing ρ (before ++ after) := by
    unfold Clause.KeepsSharing
    decide +kernel
  have hplain : (proveClauses settings (before ++ c :: after)).outcome.proved = true := by decide +kernel
  have hsame := (proved_rename_clause settings before after c ρ hinput hρ hsharing).1
  exact ⟨hinput, hρ, hsharing, hplain, hsame.trans hplain⟩

/-- **Sharing decides.** With the complete unifier and all pairs, `P(x, A)` and `¬P(B, x)` are not refuted, as one `x`
would have to be both constants; with the `x` of the first clause renamed they are. -/
theorem proved_depends_on_sharing :
    ¬ ∀ (settings : Settings) (before after : List Clause) (c : Clause) (ρ : String → String),
      settings.unifier = .complete → settings.pairSelection = .all →
      (∀ d ∈ before ++ c :: after, d.WellFormed) → c.Renaming ρ →
      (proveClauses settings (before ++ c :: after)).outcome.termination ≠ .stepLimit →
      (proveClauses settings (before ++ c.rename ρ :: after)).outcome.termination ≠ .stepLimit →
      (proveClauses settings (before ++ c :: after)).outcome.proved =
        (proveClauses settings (before ++ c.rename ρ :: after)).outcome.proved := by
  intro hlocal
  have hsame := hlocal { unifier := .complete, pairSelection := .all } [] [⟨[⟨false, "P", [.const "B", .var "x"]⟩]⟩]
    ⟨[⟨true, "P", [.var "x", .const "A"]⟩]⟩ (fun _ => "y") rfl rfl (by decide +kernel)
    ⟨by decide +kernel, by decide +kernel⟩ (by decide +kernel) (by decide +kernel)
  exact absurd hsame (by decide +kernel)

end Search

end Refutation
