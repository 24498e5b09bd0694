/-
Binary resolution: what two clauses yield on a pair of clashing literals whose arguments unify.

The resolvent on the pair `(i, j)` has the literals of the first clause without literal `i`, then those of the second
without literal `j` that are not there yet, under the unifier; literals that the unifier makes equal are merged. Clauses
are not renamed apart: a variable that both clauses use is one variable.

`head?_resolvents` says that looking for the first resolvent alone gives the first of them all.
-/
import Refutation.Unifier

namespace Refutation

/-- a clause derived from two clauses, with the pair of literals and the unifier -/
structure Resolvent where
  clause : Clause
  leftIndex : Nat
  rightIndex : Nat
  substitution : Substitution
deriving DecidableEq

/-- how many resolvents a pair of clauses contributes -/
inductive PairSelection where
  | firstMatch
  | all
deriving DecidableEq, Repr

namespace PairSelection

/-- the name in settings -/
def name : PairSelection → String
  | .firstMatch => "first_match"
  | .all => "all"

/-- the selection that a name or its hyphenated form denotes -/
def ofName? : String → Option PairSelection
  | "first_match" => some .firstMatch
  | "first-match" => some .firstMatch
  | "all" => some .all
  | _ => none

end PairSelection

/-- adds the literals that are not there yet -/
def addNew (known new : List Literal) : List Literal :=
  new.foldl (fun ls l => if l ∈ ls then ls else ls ++ [l]) known

/-- the resolvent clause on literal `i` of the first and literal `j` of the second clause -/
def resolventClause (c : Clause) (i : Nat) (d : Clause) (j : Nat) (s : Substitution) : Clause :=
  (Clause.apply s ⟨addNew (c.literals.eraseIdx i) (d.literals.eraseIdx j)⟩).dedup

/-- the resolvent on one pair of literals, if they clash and their arguments unify -/
def resolventAt? (u : Unifier) (c d : Clause) (i : Nat) (l : Literal) (j : Nat) (m : Literal) : Option Resolvent :=
  if l.clashes m then
    match u.unify l.atom.args m.atom.args with
    | .ok s => some ⟨resolventClause c i d j s, i, j, s⟩
    | .error _ => none
  else none

/-- all resolvents of two clauses, by the literal of the first clause and then by that of the second -/
def resolvents (u : Unifier) (c d : Clause) : List Resolvent :=
  c.literals.zipIdx.flatMap fun (l, i) => d.literals.zipIdx.filterMap fun (m, j) => resolventAt? u c d i l j m

/-- the first resolvent of two clauses; later pairs of literals are not looked at -/
def firstResolvent? (u : Unifier) (c d : Clause) : Option Resolvent :=
  c.literals.zipIdx.findSome? fun (l, i) => d.literals.zipIdx.findSome? fun (m, j) => resolventAt? u c d i l j m

theorem head?_resolvents (u : Unifier) (c d : Clause) : (resolvents u c d).head? = firstResolvent? u c d := by
  simp [resolvents, firstResolvent?, List.head?_flatMap, List.head?_filterMap]

/-- the resolvents that a pair of clauses contributes -/
def PairSelection.resolvents (p : PairSelection) (u : Unifier) (c d : Clause) : List Resolvent :=
  match p with
  | .firstMatch => (firstResolvent? u c d).toList
  | .all => Refutation.resolvents u c d

theorem PairSelection.resolvents_firstMatch (u : Unifier) (c d : Clause) :
    firstMatch.resolvents u c d = (Refutation.resolvents u c d).take 1 := by
  simp only [PairSelection.resolvents, ← head?_resolvents]
  cases Refutation.resolvents u c d <;> rfl

end Refutation
