/-
Atoms and literals. An atom is a predicate name with its arguments; a literal is an atom with a sign.
-/
import Refutation.Term

namespace Refutation

/-- a predicate applied to terms; a proposition has no arguments -/
structure Atom where
  predicate : String
  args : List Term
deriving DecidableEq, Repr

/-- a signed atom -/
structure Literal where
  positive : Bool
  atom : Atom
deriving DecidableEq, Repr

namespace Atom

/-- the atom without arguments -/
def prop (predicate : String) : Atom := ⟨predicate, []⟩

/-- how many arguments there are -/
def arity (a : Atom) : Nat := a.args.length

/-- the predicate, then the arguments in brackets if there are any -/
def text (a : Atom) : String :=
  if a.args.isEmpty then a.predicate
  else a.predicate ++ "(" ++ String.intercalate ", " (a.args.map Term.text) ++ ")"

end Atom

namespace Literal

/-- opposite signs and one predicate name; the arguments are left to unification -/
def clashes (l m : Literal) : Bool := l.positive != m.positive && l.atom.predicate == m.atom.predicate

theorem clashes_iff {l m : Literal} :
    l.clashes m = true ↔ l.positive ≠ m.positive ∧ l.atom.predicate = m.atom.predicate := by
  simp [clashes]

/-- the literal with the other sign -/
def complement (l : Literal) : Literal := { l with positive := !l.positive }

/-- a negative literal is written with `¬` in front of its atom -/
def text (l : Literal) : String := if l.positive then l.atom.text else "¬" ++ l.atom.text

end Literal

end Refutation
