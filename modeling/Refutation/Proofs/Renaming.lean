/-
Renaming variables.

Unification and resolution use variables only by comparing them, so they commute with an injective renaming. Bindings are
`Renamed` when they bind the renamed variables to the renamed terms; following a chain of bindings, one pair of arguments,
and a whole pass of either unifier keep this (`Unifier.unify_rename`). The resolvents of two renamed clauses are the
renamed resolvents, in the same order (`resolvents_rename`). A renaming that is injective on the variables of interest
agrees there with a permutation of names (`exists_perm_extension`), so with a renaming that is injective on all names.
-/
import Mathlib.Logic.Equiv.Fintype
import Refutation.Proofs.Resolvents

namespace Refutation

/-- the term with its variable renamed -/
def Term.rename (π : String → String) : Term → Term
  | .var x => .var (π x)
  | .const a => .const a

/-- the atom with its variables renamed -/
def Atom.rename (π : String → String) (a : Atom) : Atom := { a with args := a.args.map (Term.rename π) }

/-- the literal with its variables renamed -/
def Literal.rename (π : String → String) (l : Literal) : Literal := { l with atom := l.atom.rename π }

/-- the clause with its variables renamed -/
def Clause.rename (π : String → String) (c : Clause) : Clause := ⟨c.literals.map (Literal.rename π)⟩

/-- the variables that occur in the clause -/
def Clause.vars (c : Clause) : List String := c.terms.filterMap Term.var?

theorem Term.mem_filterMap_var? {ts : List Term} {x : String} : x ∈ ts.filterMap Term.var? ↔ .var x ∈ ts := by
  rw [List.mem_filterMap]
  constructor
  · rintro ⟨t, ht, hx⟩
    cases t with
    | const a => cases hx
    | var y =>
      obtain rfl := Option.some.inj hx
      exact ht
  · intro h
    exact ⟨_, h, rfl⟩

theorem Clause.mem_vars {c : Clause} {x : String} : x ∈ c.vars ↔ .var x ∈ c.terms := Term.mem_filterMap_var?

theorem Clause.mem_vars_append {c d : Clause} {x : String} : x ∈ c.vars ++ d.vars ↔ .var x ∈ c.terms ++ d.terms := by
  rw [List.mem_append, List.mem_append, mem_vars, mem_vars]

variable {π ρ : String → String}

/-! ## Clauses -/

theorem Term.rename_injective (hπ : Function.Injective π) : Function.Injective (Term.rename π) := by
  intro t u h
  cases t with
  | var x =>
    cases u with
    | var y => rw [hπ (Term.var.inj h)]
    | const b => cases h
  | const a =>
    cases u with
    | var y => cases h
    | const b => exact h

theorem Literal.rename_injective (hπ : Function.Injective π) : Function.Injective (Literal.rename π) := by
  rintro ⟨positive, predicate, args⟩ ⟨positive', predicate', args'⟩ h
  simp only [Literal.rename, Atom.rename, Literal.mk.injEq, Atom.mk.injEq] at h ⊢
  exact ⟨h.1, h.2.1, (Term.rename_injective hπ).list_map h.2.2⟩

theorem Clause.rename_injective (hπ : Function.Injective π) : Function.Injective (Clause.rename π) := by
  rintro ⟨literals⟩ ⟨literals'⟩ h
  exact congrArg mk ((Literal.rename_injective hπ).list_map (Clause.mk.inj h))

@[simp] theorem Clause.isUnit_rename (c : Clause) : (c.rename π).isUnit = c.isUnit := by
  simp [isUnit, rename]

@[simp] theorem Clause.isEmpty_rename (c : Clause) : (c.rename π).isEmpty = c.isEmpty := by
  simp [isEmpty, rename]

/-- renamings that agree on the variables of a clause rename it in the same way -/
theorem Clause.rename_congr {c : Clause} (h : ∀ x ∈ c.vars, π x = ρ x) : c.rename π = c.rename ρ := by
  refine congrArg mk (List.map_congr_left fun l hl => ?_)
  have hargs : l.atom.args.map (Term.rename π) = l.atom.args.map (Term.rename ρ) := by
    refine List.map_congr_left fun t ht => ?_
    cases t with
    | const a => rfl
    | var x => exact congrArg Term.var (h x (mem_vars.2 (mem_terms.2 ⟨l, hl, ht⟩)))
  simp only [Literal.rename, Atom.rename, hargs]

theorem Clause.rename_id (c : Clause) : c.rename id = c := by
  have hterm : Term.rename id = id := by
    funext t
    cases t <;> rfl
  have hliteral : Literal.rename id = id := by
    funext l
    simp [Literal.rename, Atom.rename, hterm]
  simp [rename, hliteral]

theorem Clause.rename_of_fixed {c : Clause} (h : ∀ x ∈ c.vars, π x = x) : c.rename π = c :=
  (rename_congr (ρ := id) h).trans c.rename_id

/-! ## Bindings -/

namespace Substitution

/-- `s'` binds the renamed variables to the renamed terms -/
def Renamed (π : String → String) (s s' : Substitution) : Prop :=
  ∀ x, s'.lookup (π x) = (s.lookup x).map (Term.rename π)

namespace Renamed

variable {s s' : Substitution}

theorem start : Renamed π empty empty := by
  intro x
  simp

theorem bind (hπ : Function.Injective π) (h : Renamed π s s') (x : String) (t : Term) :
    Renamed π (s.bind x t) (s'.bind (π x) (t.rename π)) := by
  intro y
  rw [lookup_bind, lookup_bind, h y]
  by_cases hxy : x = y
  · rw [if_pos hxy, if_pos (congrArg π hxy), Option.map_some]
  · rw [if_neg hxy, if_neg fun e => hxy (hπ e)]

theorem isBound (h : Renamed π s s') (x : String) : s'.isBound (π x) = s.isBound x := by
  rw [Substitution.isBound, Substitution.isBound, h x, Option.isSome_map]

theorem chain (h : Renamed π s s') {n : Nat} {t u : Term} (hc : Chain s n t u) :
    Chain s' n (t.rename π) (u.rename π) := by
  induction hc with
  | const a => exact .const a
  | free hx => exact .free (by rw [h, hx, Option.map_none])
  | link hx _ ih => exact .link (by rw [h, hx, Option.map_some]) ih

theorem walk (h : Renamed π s s') (hs : s.Acyclic) (t : Term) : s'.walk (t.rename π) = (s.walk t).rename π := by
  obtain ⟨n, hn⟩ := hs.chain_walk t
  exact (h.chain hn).walk_eq

theorem normalized (h : Renamed π s s') (hs : s.Acyclic) : Renamed π s.normalized s'.normalized := by
  intro x
  have hwalk : s'.walk (.var (π x)) = (s.walk (.var x)).rename π := h.walk hs (.var x)
  rw [lookup_normalized, lookup_normalized, h x, hwalk, Option.map_map, Option.map_map]
  rfl

theorem apply (h : Renamed π s s') (t : Term) : s'.apply (t.rename π) = (s.apply t).rename π := by
  cases t with
  | const a => rfl
  | var x =>
    simp only [Term.rename, Substitution.apply, h x]
    cases s.lookup x <;> rfl

theorem apply_literal (h : Renamed π s s') (l : Literal) : (l.rename π).apply s' = (l.apply s).rename π := by
  have happly : s'.apply ∘ Term.rename π = Term.rename π ∘ s.apply := funext h.apply
  simp only [Literal.rename, Atom.rename, Literal.apply, Atom.apply, List.map_map, happly]

end Renamed

end Substitution

/-! ## Unification -/

namespace Unifier

/-- both attempts fail, or both succeed, the second with the renamed bindings -/
inductive RenamedResult (π : String → String) :
    Except UnifyError Substitution → Except UnifyError Substitution → Prop where
  | ok {s s' : Substitution} (h : s.Renamed π s') : RenamedResult π (.ok s) (.ok s')
  | error (e e' : UnifyError) : RenamedResult π (.error e) (.error e')

variable {s s' : Substitution}

theorem unbound?_rename (h : s.Renamed π s') (t : Term) : unbound? s' (t.rename π) = (unbound? s t).map π := by
  cases t with
  | const a => rfl
  | var x =>
    simp only [Term.rename, unbound?, h.isBound]
    split_ifs <;> rfl

theorem singlePassStep_rename (hπ : Function.Injective π) (h : s.Renamed π s') (a b : Term) :
    RenamedResult π (singlePassStep s a b) (singlePassStep s' (a.rename π) (b.rename π)) := by
  simp only [singlePassStep, (Term.rename_injective hπ).eq_iff, unbound?_rename h]
  by_cases hab : a = b
  · rw [if_pos hab, if_pos hab]
    exact .ok h
  · rw [if_neg hab, if_neg hab]
    cases unbound? s a with
    | some x => exact .ok (h.bind hπ x b)
    | none =>
      cases unbound? s b with
      | some y => exact .ok (h.bind hπ y a)
      | none => exact .error _ _

theorem completeStep_rename (hπ : Function.Injective π) (hs : s.Acyclic) (h : s.Renamed π s') (a b : Term) :
    RenamedResult π (completeStep s a b) (completeStep s' (a.rename π) (b.rename π)) := by
  simp only [completeStep, h.walk hs, (Term.rename_injective hπ).eq_iff]
  split_ifs
  · exact .ok h
  · cases s.walk a with
    | var x => exact .ok (h.bind hπ x (s.walk b))
    | const c =>
      cases s.walk b with
      | var y => exact .ok (h.bind hπ y (.const c))
      | const d => exact .error _ _

/-- what holds of one pair holds of a pass; `I` is what the steps keep of the bindings -/
theorem overPairs_rename {step : Substitution → Term → Term → Except UnifyError Substitution} {I : Substitution → Prop}
    (hkeep : ∀ s s1 a b, I s → step s a b = .ok s1 → I s1)
    (hstep : ∀ s s' a b, I s → s.Renamed π s' → RenamedResult π (step s a b) (step s' (a.rename π) (b.rename π)))
    (hI : I s) (h : s.Renamed π s') (pairs : List (Term × Term)) :
    RenamedResult π (overPairs step s pairs)
      (overPairs step s' (pairs.map (Prod.map (Term.rename π) (Term.rename π)))) := by
  induction pairs generalizing s s' with
  | nil => exact .ok h
  | cons p pairs ih =>
    obtain ⟨a, b⟩ := p
    simp only [List.map_cons, Prod.map_apply, overPairs]
    have hab := hstep s s' a b hI h
    have hIab := fun s1 => hkeep s s1 a b hI
    generalize step s a b = r at hab hIab ⊢
    generalize step s' (a.rename π) (b.rename π) = r' at hab ⊢
    cases hab with
    | ok hr => exact ih (hIab _ rfl) hr
    | error e e' => exact .error e e'

/-- **Unification commutes with an injective renaming.** -/
theorem unify_rename (hπ : Function.Injective π) (u : Unifier) (left right : List Term) :
    RenamedResult π (u.unify left right) (u.unify (left.map (Term.rename π)) (right.map (Term.rename π))) := by
  simp only [unify, List.length_map, List.zip_map]
  split_ifs
  · exact .error _ _
  · cases u with
    | singlePass =>
      exact overPairs_rename (I := fun _ => True) (fun _ _ _ _ _ _ => trivial)
        (fun s s' a b _ h => singlePassStep_rename hπ h a b) trivial .start _
    | complete =>
      have hpass : RenamedResult π (overPairs completeStep .empty (left.zip right))
          (overPairs completeStep .empty ((left.zip right).map (Prod.map (Term.rename π) (Term.rename π)))) :=
        overPairs_rename (fun _ _ _ _ => completeStep_acyclic)
          (fun s s' a b hs h => completeStep_rename hπ hs h a b) Substitution.acyclic_empty .start _
      -- normalising follows chains, so it needs to know that the pass has made no cycle
      have hacyclic : ∀ s, overPairs completeStep .empty (left.zip right) = .ok s → s.Acyclic := fun s =>
        overPairs_induction (I := fun _ s => s.Acyclic) (fun _ _ _ _ _ _ => completeStep_acyclic)
          Substitution.acyclic_empty
      generalize overPairs completeStep .empty (left.zip right) = r at hpass hacyclic ⊢
      generalize overPairs completeStep .empty ((left.zip right).map _) = r' at hpass ⊢
      cases hpass with
      | ok h => exact .ok (h.normalized (hacyclic _ rfl))
      | error e e' => exact .error e e'

end Unifier

/-! ## Resolvents -/

theorem addNew_map {f : Literal → Literal} (hf : Function.Injective f) (known new : List Literal) :
    addNew (known.map f) (new.map f) = (addNew known new).map f := by
  induction new generalizing known with
  | nil => rfl
  | cons l new ih =>
    rw [List.map_cons, addNew_cons, addNew_cons, ← ih]
    by_cases hl : l ∈ known
    · rw [if_pos hl, if_pos (List.mem_map_of_mem hl)]
    · rw [if_neg hl, if_neg fun h => hl ((List.mem_map_of_injective hf).1 h), List.map_append, List.map_singleton]

theorem eraseDups_map {α β : Type} [BEq α] [LawfulBEq α] [BEq β] [LawfulBEq β] {f : α → β} (hf : Function.Injective f)
    (as : List α) : (as.map f).eraseDups = as.eraseDups.map f := by
  induction as using eraseDups_induction with
  | nil => simp
  | cons a as ih =>
    have hcopies : (fun b => !b == f a) ∘ f = fun b => !b == a := by
      funext b
      simp only [Function.comp_apply, Bool.not_eq_eq_eq_not, Bool.not_not]
      rw [Bool.eq_iff_iff, beq_iff_eq, beq_iff_eq, hf.eq_iff]
    rw [List.map_cons, List.eraseDups_cons, List.eraseDups_cons, List.map_cons, List.filter_map, hcopies, ih]

theorem resolventClause_rename (hπ : Function.Injective π) {s s' : Substitution} (h : s.Renamed π s') (c d : Clause)
    (i j : Nat) : resolventClause (c.rename π) i (d.rename π) j s' = (resolventClause c i d j s).rename π := by
  have hinj := Literal.rename_injective hπ
  have happly : Literal.apply s' ∘ Literal.rename π = Literal.rename π ∘ Literal.apply s := funext h.apply_literal
  simp only [resolventClause, Clause.dedup, Clause.literals_apply, Clause.rename, List.eraseIdx_map, addNew_map hinj,
    List.map_map, happly]
  rw [← List.map_map, eraseDups_map hinj]

theorem resolventAt?_rename (hπ : Function.Injective π) (u : Unifier) (c d : Clause) (i j : Nat) (l m : Literal) :
    (resolventAt? u (c.rename π) (d.rename π) i (l.rename π) j (m.rename π)).map Resolvent.clause =
      (resolventAt? u c d i l j m).map fun r => r.clause.rename π := by
  have hclash : (l.rename π).clashes (m.rename π) = l.clashes m := rfl
  have hargs : ∀ k : Literal, (k.rename π).atom.args = k.atom.args.map (Term.rename π) := fun _ => rfl
  simp only [resolventAt?, hclash, hargs]
  split_ifs
  · have hunify := Unifier.unify_rename hπ u l.atom.args m.atom.args
    generalize u.unify l.atom.args m.atom.args = r at hunify ⊢
    generalize u.unify (l.atom.args.map (Term.rename π)) (m.atom.args.map (Term.rename π)) = r' at hunify ⊢
    cases hunify with
    | ok h => exact congrArg some (resolventClause_rename hπ h c d i j)
    | error e e' => rfl
  · rfl

/-- **Resolution commutes with an injective renaming.** -/
theorem resolvents_rename (hπ : Function.Injective π) (u : Unifier) (c d : Clause) :
    (resolvents u (c.rename π) (d.rename π)).map Resolvent.clause =
      (resolvents u c d).map fun r => r.clause.rename π := by
  have hzip : ∀ e : Clause, (e.rename π).literals.zipIdx = e.literals.zipIdx.map (Prod.map (Literal.rename π) id) :=
    fun e => List.zipIdx_map
  simp only [resolvents, hzip, List.map_flatMap, List.flatMap_map, List.map_filterMap, List.filterMap_map]
  refine List.flatMap_congr fun p _ => List.filterMap_congr fun q _ => ?_
  exact resolventAt?_rename hπ u c d p.2 q.2 p.1 q.1

theorem PairSelection.resolvents_rename (hπ : Function.Injective π) (p : PairSelection) (u : Unifier) (c d : Clause) :
    (p.resolvents u (c.rename π) (d.rename π)).map Resolvent.clause =
      (p.resolvents u c d).map fun r => r.clause.rename π := by
  cases p with
  | firstMatch =>
    rw [resolvents_firstMatch, resolvents_firstMatch, List.map_take, List.map_take, Refutation.resolvents_rename hπ]
  | all => exact Refutation.resolvents_rename hπ u c d

/-! ## Extension -/

/-- a map that is injective on a list of names agrees there with a permutation, which moves only names of the list and
their images -/
theorem exists_perm_extension {f : String → String} {xs : List String}
    (hf : ∀ x ∈ xs, ∀ y ∈ xs, f x = f y → x = y) :
    ∃ π : Equiv.Perm String, (∀ x ∈ xs, π x = f x) ∧ ∀ x, x ∉ xs → x ∉ xs.map f → π x = x := by
  -- on the names and their images the map extends to a bijection, since there are finitely many; elsewhere nothing moves
  let names : Finset String := xs.toFinset ∪ xs.toFinset.image f
  let domain : Finset names := Finset.univ.filter fun x => x.1 ∈ xs
  have himage : domain.image (fun x => f x.1) ⊆ names := by
    intro y hy
    obtain ⟨x, hx, rfl⟩ := Finset.mem_image.1 hy
    have hx : x.1 ∈ xs := (Finset.mem_filter.1 hx).2
    exact Finset.mem_union_right _ (Finset.mem_image_of_mem f (List.mem_toFinset.2 hx))
  have hinj : Set.InjOn (fun x : names => f x.1) domain := by
    intro x hx y hy hxy
    exact Subtype.ext (hf _ (Finset.mem_filter.1 hx).2 _ (Finset.mem_filter.1 hy).2 hxy)
  obtain ⟨g, hg⟩ := Finset.exists_equiv_extend_of_card_eq (Fintype.card_coe names) himage hinj
  refine ⟨Equiv.Perm.ofSubtype (p := fun x => x ∈ names) g, fun x hx => ?_, fun x hx hfx => ?_⟩
  · have hmem : x ∈ names := Finset.mem_union_left _ (List.mem_toFinset.2 hx)
    rw [Equiv.Perm.ofSubtype_apply_of_mem g hmem]
    exact hg ⟨x, hmem⟩ (Finset.mem_filter.2 ⟨Finset.mem_univ _, hx⟩)
  · have hnot : x ∉ names := by
      simpa [names] using And.intro hx (by simpa using hfx)
    exact Equiv.Perm.ofSubtype_apply_of_not_mem g hnot

/-- a map that is injective on a list of names agrees there with a map that is injective on all names -/
theorem exists_injective_extension {f : String → String} {xs : List String}
    (hf : ∀ x ∈ xs, ∀ y ∈ xs, f x = f y → x = y) :
    ∃ π : String → String, Function.Injective π ∧ ∀ x ∈ xs, π x = f x := by
  obtain ⟨π, hπ, -⟩ := exists_perm_extension hf
  exact ⟨π, π.injective, hπ⟩

end Refutation
