/-
Clauses: disjunctions of literals, kept in the order in which they were built so that traces can be reproduced.

A clause has two texts to be known by: its own rendering, in which the order of the literals counts, and the key of its
set of literals, in which neither order nor repetition counts.
-/
import Refutation.Literal

namespace Refutation

/-- a disjunction of literals -/
structure Clause where
  literals : List Literal
deriving DecidableEq, Repr

namespace Clause

/-- the clause without literals, which nothing satisfies -/
def empty : Clause := ⟨[]⟩

/-- the clause has no literals -/
def isEmpty (c : Clause) : Bool := c.literals.isEmpty

theorem isEmpty_iff {c : Clause} : c.isEmpty = true ↔ c = empty := by
  cases c
  simp [isEmpty, empty]

/-- the clause has exactly one literal -/
def isUnit (c : Clause) : Bool := c.literals.length == 1

/-- how many literals there are -/
def size (c : Clause) : Nat := c.literals.length

/-- some literal occurs twice -/
def hasDuplicates (c : Clause) : Bool := !decide c.literals.Nodup

/-- first occurrences only -/
def dedup (c : Clause) : Clause := ⟨c.literals.eraseDups⟩

/-- the rendering of the empty clause -/
def emptyText : String := "◻"

/-- what stands between two literals in text -/
def separator : String := " ∨ "

/-- the literals in order, with `∨` between them -/
def text (c : Clause) : String :=
  if c.literals.isEmpty then emptyText else String.intercalate separator (c.literals.map Literal.text)

/-- the renderings of the literals, sorted and without repetition -/
def literalSetKey (c : Clause) : String :=
  String.intercalate separator ((c.literals.map Literal.text).mergeSort fun a b => decide (a ≤ b)).eraseDups

end Clause

end Refutation
