/-
Resolution with the complete unifier.

Two clauses have a resolvent on a pair of literals exactly when some substitution makes the pair opposite: the signs differ
and the atoms become equal (`exists_resolvent_iff`). A resolvent is most general. A substitution that makes its pair
opposite does not notice whether the unifier was applied before it (`Absorbs`), so it sends the resolvent to what it sends
the rest of the parents to (`literalSet_apply_resolvent`).

The order of the parents does not matter either. The unifier binds the left variable first, so the two orders bind other
variables to other terms; but each of the two substitutions absorbs the other, and two such substitutions differ only by a
permutation of variables (`exists_perm_of_absorbs`). The two resolvents then differ by this permutation, which moves only
variables of the parents (`exists_perm_resolvent`).
-/
import Refutation.Proofs.Renaming
import Refutation.Proofs.Truth

universe u

namespace Refutation

/-- the clause without literal `i` -/
def Clause.without (c : Clause) (i : Nat) : Clause := ⟨c.literals.eraseIdx i⟩

/-- the literals of the clause as a set -/
def Clause.literalSet (c : Clause) : Finset Literal := c.literals.toFinset

/-- the resolvent is on literal `i` of the first and literal `j` of the second parent -/
def Resolvent.At (r : Resolvent) (i j : Nat) : Prop := r.leftIndex = i ∧ r.rightIndex = j

/-- literal `i` of the first and literal `j` of the second clause have opposite signs, and the substitution makes their
atoms equal -/
def Substitution.Opposes (θ : Substitution) (c : Clause) (i : Nat) (d : Clause) (j : Nat) : Prop :=
  ∃ l m, c.literals[i]? = some l ∧ d.literals[j]? = some m ∧ l.positive ≠ m.positive ∧ l.atom.apply θ = m.atom.apply θ

variable {u : Unifier} {c d : Clause} {i j : Nat} {r r' : Resolvent} {σ τ θ : Substitution}

theorem Clause.mem_literalSet {k : Literal} : k ∈ c.literalSet ↔ k ∈ c.literals := List.mem_toFinset

theorem Clause.literalSet_apply (θ : Substitution) (c : Clause) :
    (c.apply θ).literalSet = c.literalSet.image (Literal.apply θ) := by
  ext k
  rw [mem_literalSet, literals_apply, List.mem_map, Finset.mem_image]
  simp only [mem_literalSet]

theorem Atom.apply_eq_iff {a b : Atom} :
    a.apply θ = b.apply θ ↔ a.predicate = b.predicate ∧ θ.Unifies a.args b.args := by
  simp only [Atom.apply, Atom.mk.injEq, Substitution.Unifies]

/-! ## Absorption -/

namespace Substitution

/-- applying `σ` before `θ` makes no difference -/
def Absorbs (θ σ : Substitution) : Prop := ∀ t, θ.apply (σ.apply t) = θ.apply t

theorem Absorbs.apply_literal (h : θ.Absorbs σ) : Literal.apply θ ∘ Literal.apply σ = Literal.apply θ := by
  have hterms : θ.apply ∘ σ.apply = θ.apply := funext h
  funext k
  simp only [Function.comp_apply, Literal.apply, Atom.apply, List.map_map, hterms]

theorem Opposes.symm (h : θ.Opposes c i d j) : θ.Opposes d j c i := by
  obtain ⟨l, m, hl, hm, hsigns, hatoms⟩ := h
  exact ⟨m, l, hm, hl, hsigns.symm, hatoms.symm⟩

end Substitution

/-! ## Resolvents -/

/-- the two literals of a resolvent, with the result of the unifier -/
theorem exists_unify_of_mem (hr : r ∈ resolvents u c d) :
    ∃ l m, c.literals[r.leftIndex]? = some l ∧ d.literals[r.rightIndex]? = some m ∧ l.clashes m = true ∧
      u.unify l.atom.args m.atom.args = .ok r.substitution ∧
      r.clause = resolventClause c r.leftIndex d r.rightIndex r.substitution := by
  obtain ⟨i, j, l, m, s, hl, hm, hclash, hs, rfl⟩ := mem_resolvents.1 hr
  exact ⟨l, m, hl, hm, hclash, hs, rfl⟩

/-- the substitution of a resolvent makes its pair opposite -/
theorem opposes_of_mem (hr : r ∈ resolvents .complete c d) : r.substitution.Opposes c r.leftIndex d r.rightIndex := by
  obtain ⟨l, m, hl, hm, hclash, hs, -⟩ := exists_unify_of_mem hr
  obtain ⟨hsigns, hpredicate⟩ := Literal.clashes_iff.1 hclash
  exact ⟨l, m, hl, hm, hsigns, Atom.apply_eq_iff.2 ⟨hpredicate, Unifier.complete_unifies hs⟩⟩

theorem exists_resolvent_of_opposes (h : θ.Opposes c i d j) : ∃ r ∈ resolvents .complete c d, r.At i j := by
  obtain ⟨l, m, hl, hm, hsigns, hatoms⟩ := h
  obtain ⟨hpredicate, hargs⟩ := Atom.apply_eq_iff.1 hatoms
  obtain ⟨s, hs⟩ := Unifier.complete_ok_of_unifies hargs
  have hclash : l.clashes m = true := Literal.clashes_iff.2 ⟨hsigns, hpredicate⟩
  exact ⟨_, mem_resolvents.2 ⟨i, j, l, m, s, hl, hm, hclash, hs, rfl⟩, rfl, rfl⟩

/-- **Which pairs resolve**: those that some substitution makes opposite. -/
theorem exists_resolvent_iff : (∃ r ∈ resolvents .complete c d, r.At i j) ↔ ∃ θ : Substitution, θ.Opposes c i d j := by
  constructor
  · rintro ⟨r, hr, rfl, rfl⟩
    exact ⟨r.substitution, opposes_of_mem hr⟩
  · rintro ⟨θ, hθ⟩
    exact exists_resolvent_of_opposes hθ

/-- what makes the pair of a resolvent opposite absorbs the substitution of the resolvent -/
theorem absorbs_of_opposes (hr : r ∈ resolvents .complete c d) (hθ : θ.Opposes c r.leftIndex d r.rightIndex) :
    θ.Absorbs r.substitution := by
  obtain ⟨l, m, hl, hm, -, hs, -⟩ := exists_unify_of_mem hr
  obtain ⟨l', m', hl', hm', -, hatoms⟩ := hθ
  rw [hl] at hl'
  rw [hm] at hm'
  obtain rfl := Option.some.inj hl'
  obtain rfl := Option.some.inj hm'
  exact Unifier.complete_mostGeneral hs (Atom.apply_eq_iff.1 hatoms).2

/-- the literals of a resolvent are those of the parents without the pair, under the substitution -/
theorem literalSet_resolvent (hr : r ∈ resolvents u c d) :
    r.clause.literalSet =
      ((c.without r.leftIndex).literalSet ∪ (d.without r.rightIndex).literalSet).image (Literal.apply r.substitution) := by
  obtain ⟨-, -, -, -, -, -, hclause⟩ := exists_unify_of_mem hr
  ext k
  rw [Clause.mem_literalSet, hclause, mem_resolventClause, Finset.mem_image]
  simp only [sideLiterals, List.mem_append, Finset.mem_union, Clause.mem_literalSet, Clause.without]

/-- **Resolvents are most general.** -/
theorem literalSet_apply_resolvent (hr : r ∈ resolvents .complete c d)
    (hθ : θ.Opposes c r.leftIndex d r.rightIndex) :
    (r.clause.apply θ).literalSet =
      ((c.without r.leftIndex).apply θ).literalSet ∪ ((d.without r.rightIndex).apply θ).literalSet := by
  let rest := (c.without r.leftIndex).literalSet ∪ (d.without r.rightIndex).literalSet
  calc (r.clause.apply θ).literalSet
      = r.clause.literalSet.image (Literal.apply θ) := Clause.literalSet_apply θ r.clause
    _ = (rest.image (Literal.apply r.substitution)).image (Literal.apply θ) := by rw [literalSet_resolvent hr]
    _ = rest.image (Literal.apply θ) := by rw [Finset.image_image, (absorbs_of_opposes hr hθ).apply_literal]
    _ = ((c.without r.leftIndex).apply θ).literalSet ∪ ((d.without r.rightIndex).apply θ).literalSet := by
        rw [Finset.image_union, Clause.literalSet_apply, Clause.literalSet_apply]

/-- **Complete resolution is exact.** Two clauses have a resolvent on the literals `i` and `j` if and only if these have
opposite signs and some substitution makes their atoms equal. A structure that models the parents models every resolvent;
and whatever makes the resolved atoms equal sends the resolvent to the literals that it sends the rest of the parents to. -/
theorem complete_resolution_exact (c d : Clause) :
    (∀ i j, (∃ r ∈ resolvents .complete c d, r.At i j) ↔ ∃ θ : Substitution, θ.Opposes c i d j) ∧
    ∀ r ∈ resolvents .complete c d,
      (∀ M : Structure.{u}, M.Models c → M.Models d → M.Models r.clause) ∧
      ∀ θ : Substitution, θ.Opposes c r.leftIndex d r.rightIndex →
        (r.clause.apply θ).literalSet =
          ((c.without r.leftIndex).apply θ).literalSet ∪ ((d.without r.rightIndex).apply θ).literalSet := by
  refine ⟨fun i j => exists_resolvent_iff, fun r hr => ⟨fun M hc hd => ?_, fun θ hθ => ?_⟩⟩
  · exact hc.resolvent hr (Resolvent.unified_of_complete hr) hd
  · exact literalSet_apply_resolvent hr hθ

/-- `P(x, y) ∨ Q(x)` and `¬P(y, A) ∨ Q(y) ∨ R(x)` share their variables; the unifier merges the two literals with `Q` -/
theorem complete_resolution_merged :
    let c : Clause := ⟨[⟨true, "P", [.var "x", .var "y"]⟩, ⟨true, "Q", [.var "x"]⟩]⟩
    let d : Clause := ⟨[⟨false, "P", [.var "y", .const "A"]⟩, ⟨true, "Q", [.var "y"]⟩, ⟨true, "R", [.var "x"]⟩]⟩
    let θ : Substitution := (Substitution.empty.bind "x" (.const "A")).bind "y" (.const "A")
    θ.Opposes c 0 d 0 ∧ ∃ r ∈ resolvents .complete c d, r.At 0 0 ∧
      (∀ M : Structure.{0}, M.Models c → M.Models d → M.Models r.clause) ∧
      (r.clause.apply θ).literalSet = {⟨true, "Q", [.const "A"]⟩, ⟨true, "R", [.const "A"]⟩} := by
  intro c d θ
  have hθ : θ.Opposes c 0 d 0 := ⟨_, _, rfl, rfl, by decide, by decide⟩
  obtain ⟨hpairs, hexact⟩ := complete_resolution_exact c d
  obtain ⟨r, hr, hleft, hright⟩ := (hpairs 0 0).2 ⟨θ, hθ⟩
  obtain ⟨hmodels, hliterals⟩ := hexact r hr
  rw [hleft, hright] at hliterals
  refine ⟨hθ, r, hr, ⟨hleft, hright⟩, hmodels, ?_⟩
  rw [hliterals θ hθ]
  decide +kernel

/-! ## The other order -/

namespace Substitution

/-- the name that the substitution has for a variable -/
def nameFor (τ : Substitution) (y : String) : String := (τ.apply (.var y)).name

section

variable (hτ : τ.Absorbs σ) (hσ : σ.Absorbs τ)
include hτ hσ

/-- where one of two substitutions that absorb each other gives a variable, the other gives its name for it, and the way
back is the same -/
theorem Absorbs.apply_eq_var {t : Term} {y : String} (h : σ.apply t = .var y) :
    τ.apply t = .var (τ.nameFor y) ∧ σ.apply (.var (τ.nameFor y)) = .var y := by
  have hforth : τ.apply (.var y) = τ.apply t := by rw [← h, hτ t]
  have hback : σ.apply (τ.apply t) = .var y := by rw [hσ t, h]
  rw [nameFor, hforth]
  cases hz : τ.apply t with
  | const a =>
    rw [hz] at hback
    cases hback
  | var z =>
    rw [hz] at hback
    exact ⟨rfl, hback⟩

/-- **Substitutions that absorb each other differ by a permutation of variables** on any list of terms. -/
theorem exists_perm_of_absorbs (ts : List Term) :
    ∃ π : Equiv.Perm String, (∀ t ∈ ts, (σ.apply t).rename π = τ.apply t) ∧
      ∀ x, .var x ∉ ts.map σ.apply → .var x ∉ ts.map τ.apply → π x = x := by
  -- the variables that `σ` leaves in the terms; `τ` has different names for them, as `σ` leads back
  let ys : List String := (ts.map σ.apply).filterMap Term.var?
  have hys : ∀ y, y ∈ ys ↔ ∃ t ∈ ts, σ.apply t = .var y := by
    intro y
    rw [Term.mem_filterMap_var?, List.mem_map]
  have hinj : ∀ y ∈ ys, ∀ z ∈ ys, τ.nameFor y = τ.nameFor z → y = z := by
    intro y hy z hz hyz
    obtain ⟨t, -, hty⟩ := (hys y).1 hy
    obtain ⟨v, -, hvz⟩ := (hys z).1 hz
    have hbacky := (Absorbs.apply_eq_var hτ hσ hty).2
    have hbackz := (Absorbs.apply_eq_var hτ hσ hvz).2
    rw [hyz, hbackz] at hbacky
    exact (Term.var.inj hbacky).symm
  obtain ⟨π, hπ, hfixed⟩ := exists_perm_extension hinj
  refine ⟨π, fun t ht => ?_, fun x hxσ hxτ => hfixed x ?_ ?_⟩
  · cases hty : σ.apply t with
    | const a => rw [← hτ t, hty, Term.rename, apply]
    | var y => rw [Term.rename, hπ y ((hys y).2 ⟨t, ht, hty⟩), (Absorbs.apply_eq_var hτ hσ hty).1]
  · intro hx
    exact hxσ (Term.mem_filterMap_var?.1 hx)
  · intro hx
    obtain ⟨y, hy, rfl⟩ := List.mem_map.1 hx
    obtain ⟨t, ht, hty⟩ := (hys y).1 hy
    exact hxτ (List.mem_map.2 ⟨t, ht, (Absorbs.apply_eq_var hτ hσ hty).1⟩)

end

end Substitution

theorem Literal.rename_apply {π : String → String} {k : Literal}
    (h : ∀ t ∈ k.atom.args, (σ.apply t).rename π = τ.apply t) : (k.apply σ).rename π = k.apply τ := by
  have hargs : k.atom.args.map (Term.rename π ∘ σ.apply) = k.atom.args.map τ.apply := List.map_congr_left h
  simp only [Literal.apply, Atom.apply, Literal.rename, Atom.rename, List.map_map, hargs]

theorem Clause.mem_terms_without {k : Literal} {t : Term}
    (hk : k ∈ (c.without i).literalSet ∪ (d.without j).literalSet) (ht : t ∈ k.atom.args) : t ∈ c.terms ++ d.terms := by
  have hside : k ∈ sideLiterals c i d j := by
    simpa [sideLiterals, Clause.mem_literalSet, Clause.without] using hk
  exact mem_terms_of_literal (mem_sideLiterals hside) ht

/-- the variables that the substitution of a resolvent leaves in the terms of the parents are variables of the parents -/
theorem mem_vars_of_apply (hr : r ∈ resolvents u c d) {x : String}
    (hx : .var x ∈ (c.terms ++ d.terms).map r.substitution.apply) : x ∈ c.vars ++ d.vars := by
  obtain ⟨l, m, hl, hm, -, hs, -⟩ := exists_unify_of_mem hr
  obtain ⟨t, ht, htx⟩ := List.mem_map.1 hx
  rw [Clause.mem_vars_append, ← htx]
  exact apply_mem_terms hl hm hs ht

/-- the resolvents on one pair in the two orders are equal up to a permutation of the variables of the parents -/
theorem exists_perm_resolvent (hr : r ∈ resolvents .complete c d) (hr' : r' ∈ resolvents .complete d c)
    (hat : r'.At r.rightIndex r.leftIndex) :
    ∃ π : Equiv.Perm String, (∀ x, x ∉ c.vars ++ d.vars → π x = x) ∧
      r.clause.literalSet.image (Literal.rename π) = r'.clause.literalSet := by
  obtain ⟨hleft, hright⟩ := hat
  have hopposes := (opposes_of_mem hr).symm
  have hopposes' := (opposes_of_mem hr').symm
  rw [← hleft, ← hright] at hopposes
  rw [hleft, hright] at hopposes'
  obtain ⟨π, hterms, hfixed⟩ := Substitution.exists_perm_of_absorbs (absorbs_of_opposes hr hopposes')
    (absorbs_of_opposes hr' hopposes) (c.terms ++ d.terms)
  refine ⟨π, fun x hx => hfixed x ?_ ?_, ?_⟩
  · intro hxσ
    exact hx (mem_vars_of_apply hr hxσ)
  · intro hxτ
    have hxτ : .var x ∈ (d.terms ++ c.terms).map r'.substitution.apply :=
      (List.perm_append_comm.map _).mem_iff.1 hxτ
    exact hx (List.perm_append_comm.mem_iff.1 (mem_vars_of_apply hr' hxτ))
  · let rest := (c.without r.leftIndex).literalSet ∪ (d.without r.rightIndex).literalSet
    have hliterals : ∀ k ∈ rest, (k.apply r.substitution).rename π = k.apply r'.substitution := by
      intro k hk
      exact Literal.rename_apply fun t ht => hterms t (Clause.mem_terms_without hk ht)
    calc r.clause.literalSet.image (Literal.rename π)
        = rest.image (Literal.rename π ∘ Literal.apply r.substitution) := by
          rw [literalSet_resolvent hr, Finset.image_image]
      _ = rest.image (Literal.apply r'.substitution) := Finset.image_congr hliterals
      _ = r'.clause.literalSet := by rw [literalSet_resolvent hr', hleft, hright, Finset.union_comm]

/-- **The order of the parents does not matter.** Two clauses have a resolvent on a pair of literals in one order if and
only if they have one in the other, and a permutation of their variables maps the literals of the first onto those of the
second. -/
theorem orientation_irrelevant (c d : Clause) (i j : Nat) :
    ((∃ r ∈ resolvents .complete c d, r.At i j) ↔ ∃ r ∈ resolvents .complete d c, r.At j i) ∧
    ∀ r ∈ resolvents .complete c d, ∀ r' ∈ resolvents .complete d c, r.At i j → r'.At j i →
      ∃ π : Equiv.Perm String, (∀ x, x ∉ c.vars ++ d.vars → π x = x) ∧
        r.clause.literalSet.image (Literal.rename π) = r'.clause.literalSet := by
  constructor
  · rw [exists_resolvent_iff, exists_resolvent_iff]
    exact exists_congr fun θ => ⟨Substitution.Opposes.symm, Substitution.Opposes.symm⟩
  · rintro r hr r' hr' ⟨rfl, rfl⟩ hat
    exact exists_perm_resolvent hr hr' hat

/-- `P(x, y) ∨ Q(x, y)` and `¬P(z, z)` give `Q(z, z)` in one order and `Q(y, y)` in the other -/
theorem orientation_irrelevant_diagonal :
    let c : Clause := ⟨[⟨true, "P", [.var "x", .var "y"]⟩, ⟨true, "Q", [.var "x", .var "y"]⟩]⟩
    let d : Clause := ⟨[⟨false, "P", [.var "z", .var "z"]⟩]⟩
    ∃ r ∈ resolvents .complete c d, ∃ r' ∈ resolvents .complete d c, r.At 0 0 ∧ r'.At 0 0 ∧
      r.clause = ⟨[⟨true, "Q", [.var "z", .var "z"]⟩]⟩ ∧ r'.clause = ⟨[⟨true, "Q", [.var "y", .var "y"]⟩]⟩ ∧
      ∃ π : Equiv.Perm String, r.clause.literalSet.image (Literal.rename π) = r'.clause.literalSet := by
  intro c d
  let σ : Substitution := (Substitution.empty.bind "x" (.var "z")).bind "y" (.var "z")
  let τ : Substitution := (Substitution.empty.bind "z" (.var "y")).bind "x" (.var "y")
  have hr : ⟨⟨[⟨true, "Q", [.var "z", .var "z"]⟩]⟩, 0, 0, σ⟩ ∈ resolvents .complete c d := by decide +kernel
  have hr' : ⟨⟨[⟨true, "Q", [.var "y", .var "y"]⟩]⟩, 0, 0, τ⟩ ∈ resolvents .complete d c := by decide +kernel
  obtain ⟨π, -, himage⟩ := (orientation_irrelevant c d 0 0).2 _ hr _ hr' ⟨rfl, rfl⟩ ⟨rfl, rfl⟩
  exact ⟨_, hr, _, hr', ⟨rfl, rfl⟩, ⟨rfl, rfl⟩, rfl, rfl, π, himage⟩

end Refutation
