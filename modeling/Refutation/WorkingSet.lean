/-
The working set of a search: every clause known so far, and which of them still wait to be the pivot.

Clauses are stored once and referred to by their index. A clause whose key is known is not stored again. Unit clauses
wait in a queue of their own, which is served first: units among the input join at its back, derived units at its front.
The other clauses wait in the order in which they came.
-/
import Refutation.Clause
import Refutation.Queue
import Std.Data.TreeSet

namespace Refutation

/-- what makes two clauses the same: their text, or their set of literals -/
inductive Dedup where
  | canonical
  | literalSet
deriving DecidableEq, Repr

namespace Dedup

/-- the name in settings -/
def name : Dedup → String
  | .canonical => "canonical"
  | .literalSet => "literal_set"

/-- the kind of key that a name or its hyphenated form denotes -/
def ofName? : String → Option Dedup
  | "canonical" => some .canonical
  | "literal_set" => some .literalSet
  | "literal-set" => some .literalSet
  | _ => none

/-- the key that a clause is known by -/
def key : Dedup → Clause → String
  | .canonical, c => c.text
  | .literalSet, c => c.literalSetKey

end Dedup

/-- the clauses known to a search, with the queues of those that wait to be the pivot -/
structure WorkingSet where
  dedup : Dedup
  clauses : Array Clause := #[]
  keys : Std.TreeSet String := {}
  units : Queue Nat := .empty
  others : Queue Nat := .empty

namespace WorkingSet

/-- the set without clauses -/
def empty (dedup : Dedup) : WorkingSet := { dedup }

/-- how many clauses there are -/
def size (w : WorkingSet) : Nat := w.clauses.size

/-- there are no clauses -/
def isEmpty (w : WorkingSet) : Bool := w.clauses.isEmpty

/-- some clause waits to be the pivot -/
def hasPending (w : WorkingSet) : Bool := !w.units.isEmpty || !w.others.isEmpty

/-- the clause with an index -/
def get? (w : WorkingSet) (i : Nat) : Option Clause := w.clauses[i]?

/-- a clause with the same key is stored -/
def knows (w : WorkingSet) (c : Clause) : Bool := w.keys.contains (w.dedup.key c)

/-- stores a clause and its key, in no queue -/
def store (w : WorkingSet) (c : Clause) : WorkingSet :=
  { w with clauses := w.clauses.push c, keys := w.keys.insert (w.dedup.key c) }

/-- adds an input clause, at the back of its queue; gives its index, or none if the clause is known -/
def insertInitial (w : WorkingSet) (c : Clause) : Option Nat × WorkingSet :=
  if w.knows c then (none, w)
  else if c.isUnit then (some w.size, { w.store c with units := w.units.pushBack w.size })
  else (some w.size, { w.store c with others := w.others.pushBack w.size })

/-- adds a derived clause; a unit goes to the front of its queue, another clause to the back -/
def insertDerived (w : WorkingSet) (c : Clause) : Option Nat × WorkingSet :=
  if w.knows c then (none, w)
  else if c.isUnit then (some w.size, { w.store c with units := w.units.pushFront w.size })
  else (some w.size, { w.store c with others := w.others.pushBack w.size })

/-- takes the next pivot: a unit if one waits -/
def nextPivot (w : WorkingSet) : Option Nat × WorkingSet :=
  match w.units.pop? with
  | some (i, rest) => (some i, { w with units := rest })
  | none =>
    match w.others.pop? with
    | some (i, rest) => (some i, { w with others := rest })
    | none => (none, w)

/-- the indices of the stored unit clauses -/
def unitIndices (w : WorkingSet) : List Nat :=
  (List.range w.size).filter fun i => (w.get? i).any Clause.isUnit

/-- The indices that a pivot is resolved with: all of them for a unit; for another clause those of the unit clauses, or
all of them while there is no unit clause. -/
def partners (w : WorkingSet) (pivot : Clause) : List Nat :=
  if pivot.isUnit || w.unitIndices.isEmpty then List.range w.size else w.unitIndices

/-- the partners of the clause with an index -/
def partners? (w : WorkingSet) (i : Nat) : Option (List Nat) := (w.get? i).map w.partners

end WorkingSet

end Refutation
