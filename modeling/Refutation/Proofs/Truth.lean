/-
Truth of clauses, and what resolution does to it.

A valuation says which atoms are true. A clause is true in it when one of its literals is, so the empty clause never is.
A structure has a domain, an element for every constant name and a relation for every predicate name; with values for the
variables it gives a valuation, and it models a clause when the clause is true for all values of the variables.

`Clause.TrueIn.resolvent` is the step that every soundness result rests on: where the two resolved literals are not both
true, some other literal of the parents is, and it is still there in the resolvent. `Structure.Models.resolvent` applies
it to a resolvent whose substitution makes the resolved arguments equal. The clauses need not be renamed apart: both are
read at the same values of the variables.
-/
import Refutation.Proofs.CompleteUnifier
import Refutation.Proofs.Resolvents

universe u

namespace Refutation

/-- which atoms are true -/
abbrev Valuation := Atom → Prop

/-- a positive literal is true when its atom is, a negative one when its atom is not -/
def Literal.TrueIn (V : Valuation) (l : Literal) : Prop := if l.positive then V l.atom else ¬ V l.atom

/-- some literal is true -/
def Clause.TrueIn (V : Valuation) (c : Clause) : Prop := ∃ l ∈ c.literals, l.TrueIn V

/-- a first-order structure; the domain is not empty, since the constants denote -/
structure Structure where
  Domain : Type u
  constant : String → Domain
  relation : String → List Domain → Prop

namespace Structure

/-- the element that a term denotes, given values for the variables -/
def eval (M : Structure.{u}) (v : String → M.Domain) : Term → M.Domain
  | .var x => v x
  | .const a => M.constant a

/-- the atoms that are true, given values for the variables -/
def truth (M : Structure.{u}) (v : String → M.Domain) : Valuation :=
  fun a => M.relation a.predicate (a.args.map (M.eval v))

/-- the universal closure of the clause holds -/
def Models (M : Structure.{u}) (c : Clause) : Prop := ∀ v, c.TrueIn (M.truth v)

end Structure

/-- the substitution of a resolvent of `c` and `d` makes the arguments of the two resolved literals equal -/
def Resolvent.Unified (r : Resolvent) (c d : Clause) : Prop :=
  ∀ l m, c.literals[r.leftIndex]? = some l → d.literals[r.rightIndex]? = some m →
    r.substitution.Unifies l.atom.args m.atom.args

/-! ## Literals -/

theorem Clause.not_trueIn_empty (V : Valuation) : ¬ Clause.empty.TrueIn V := by
  rintro ⟨l, hl, -⟩
  simp [Clause.empty] at hl

theorem Literal.trueIn_apply {V W : Valuation} {s : Substitution} (h : ∀ a, W (a.apply s) ↔ V a) (l : Literal) :
    (l.apply s).TrueIn W ↔ l.TrueIn V := by
  simp only [TrueIn, Literal.apply, h]

/-- clashing literals whose atoms are equally true are not both true -/
theorem Literal.not_both_trueIn {V : Valuation} {l m : Literal} (h : l.clashes m = true) (hV : V l.atom ↔ V m.atom) :
    ¬ (l.TrueIn V ∧ m.TrueIn V) := by
  obtain ⟨pl, a⟩ := l
  obtain ⟨pm, b⟩ := m
  have hne : pl ≠ pm := (clashes_iff.1 h).1
  have hV : V a ↔ V b := hV
  simp only [TrueIn]
  cases pl <;> cases pm <;> simp_all

theorem mem_eraseIdx_of_ne {ls : List Literal} {i : Nat} {k l : Literal} (hl : ls[i]? = some l) (hk : k ∈ ls)
    (hne : k ≠ l) : k ∈ ls.eraseIdx i := by
  obtain ⟨n, hn⟩ := List.mem_iff_getElem?.1 hk
  refine List.mem_eraseIdx_iff_getElem?.2 ⟨n, ?_, hn⟩
  rintro rfl
  rw [hl] at hn
  exact hne (Option.some.inj hn).symm

/-! ## Resolvents -/

section

variable {V W : Valuation} {c d : Clause} {i j : Nat} {l m : Literal} {s : Substitution}

theorem exists_side_trueIn (hl : c.literals[i]? = some l) (hm : d.literals[j]? = some m)
    (hnot : ¬ (l.TrueIn V ∧ m.TrueIn V)) (hc : c.TrueIn V) (hd : d.TrueIn V) :
    ∃ k ∈ sideLiterals c i d j, k.TrueIn V := by
  by_cases hlt : l.TrueIn V
  · -- then `m` is false, and the true literal of `d` is another one
    have hmf : ¬ m.TrueIn V := fun hmt => hnot ⟨hlt, hmt⟩
    obtain ⟨k, hk, hkt⟩ := hd
    have hne : k ≠ m := by
      rintro rfl
      exact hmf hkt
    exact ⟨k, List.mem_append_right _ (mem_eraseIdx_of_ne hm hk hne), hkt⟩
  · obtain ⟨k, hk, hkt⟩ := hc
    have hne : k ≠ l := by
      rintro rfl
      exact hlt hkt
    exact ⟨k, List.mem_append_left _ (mem_eraseIdx_of_ne hl hk hne), hkt⟩

/-- the resolvent is true in `W` when the parents are true in `V`, the reading of `W` before the substitution -/
theorem Clause.TrueIn.resolvent (hs : ∀ a, W (a.apply s) ↔ V a) (hl : c.literals[i]? = some l)
    (hm : d.literals[j]? = some m) (hnot : ¬ (l.TrueIn V ∧ m.TrueIn V)) (hc : c.TrueIn V) (hd : d.TrueIn V) :
    (resolventClause c i d j s).TrueIn W := by
  obtain ⟨k, hk, hkt⟩ := exists_side_trueIn hl hm hnot hc hd
  exact ⟨k.apply s, mem_resolventClause.2 ⟨k, hk, rfl⟩, (Literal.trueIn_apply hs k).2 hkt⟩

end

namespace Structure

variable {M : Structure.{u}} {c d : Clause}

/-- a substitution acts on terms as a change of the values of the variables -/
theorem eval_apply (v : String → M.Domain) (s : Substitution) (t : Term) :
    M.eval v (s.apply t) = M.eval (fun x => M.eval v (s.apply (.var x))) t := by
  cases t <;> rfl

theorem truth_apply (v : String → M.Domain) (s : Substitution) (a : Atom) :
    M.truth v (a.apply s) ↔ M.truth (fun x => M.eval v (s.apply (.var x))) a := by
  simp only [truth, Atom.apply, List.map_map]
  have hmap : a.args.map (M.eval v ∘ s.apply) = a.args.map (M.eval fun x => M.eval v (s.apply (.var x))) :=
    List.map_congr_left fun t _ => eval_apply v s t
  rw [hmap]

/-- **Resolution is sound** on a pair that the substitution makes equal. -/
theorem Models.resolvent {u : Unifier} {r : Resolvent} (hr : r ∈ resolvents u c d) (hunified : r.Unified c d)
    (hc : M.Models c) (hd : M.Models d) : M.Models r.clause := by
  obtain ⟨i, j, l, m, s, hl, hm, hclash, -, rfl⟩ := mem_resolvents.1 hr
  intro v
  have hargs : s.Unifies l.atom.args m.atom.args := hunified l m hl hm
  have hatoms : l.atom.apply s = m.atom.apply s := by
    simp only [Atom.apply, (Literal.clashes_iff.1 hclash).2]
    rw [show l.atom.args.map s.apply = m.atom.args.map s.apply from hargs]
  refine Clause.TrueIn.resolvent (truth_apply v s) hl hm (Literal.not_both_trueIn hclash ?_) (hc _) (hd _)
  rw [← truth_apply, ← truth_apply, hatoms]

end Structure

theorem Resolvent.unified_of_complete {c d : Clause} {r : Resolvent} (h : r ∈ resolvents .complete c d) :
    r.Unified c d := by
  obtain ⟨i, j, l, m, s, hl, hm, -, hs, rfl⟩ := mem_resolvents.1 h
  intro l' m' hl' hm'
  rw [hl] at hl'
  rw [hm] at hm'
  obtain rfl := Option.some.inj hl'
  obtain rfl := Option.some.inj hm'
  exact Unifier.complete_unifies hs

end Refutation
