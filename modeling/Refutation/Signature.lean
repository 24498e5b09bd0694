/-
The signature of a list of clauses: which numbers of arguments each predicate is used with. Arities are not enforced, two
atoms of different arity just never unify; the signature exists so that mixed use can be reported.
-/
import Refutation.Clause
import Std.Data.TreeMap
import Std.Data.TreeSet

namespace Refutation

/-- the arities seen for each predicate -/
structure Signature where
  predicates : Std.TreeMap String (Std.TreeSet Nat) := {}

namespace Signature

/-- records one use of a predicate -/
def addAtom (s : Signature) (a : Atom) : Signature :=
  ⟨s.predicates.insert a.predicate ((s.predicates.getD a.predicate {}).insert a.arity)⟩

/-- records the predicates of a clause -/
def addClause (s : Signature) (c : Clause) : Signature := c.literals.foldl (fun s l => s.addAtom l.atom) s

/-- the signature of a list of clauses -/
def ofClauses (cs : List Clause) : Signature := cs.foldl addClause {}

/-- predicates with their arities, both in increasing order -/
def entries (s : Signature) : List (String × List Nat) := s.predicates.toList.map fun (p, ns) => (p, ns.toList)

/-- the predicates used with more than one arity -/
def conflicts (s : Signature) : List (String × List Nat) := s.entries.filter fun (_, ns) => 1 < ns.length

end Signature

end Refutation
