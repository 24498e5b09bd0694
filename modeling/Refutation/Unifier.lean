/-
Unification of argument lists, in two ways.

The single-pass unifier goes over the pairs of arguments once and compares them as written: bindings made for earlier
pairs are not applied to later ones. It refuses some lists that can be unified (`[x, x]` and `[A, A]`), and when the two
lists share variables its result need not make them equal (`[x, y]` and `[y, A]`).

The complete unifier follows both arguments through the bindings made so far before it compares them, and normalises its
result. Terms are flat, so no variable occurs inside the term that it is bound to.
-/
import Refutation.Substitution

namespace Refutation

/-- why two argument lists are not unified -/
inductive UnifyError where
  | lengthMismatch (left right : Nat)
  | constantClash (left right : Term)
  | conflictingBinding (left right : Term)
deriving DecidableEq, Repr

/-- the wording of a failure -/
def UnifyError.message : UnifyError → String
  | .lengthMismatch left right =>
    "argument lists differ in length (" ++ Nat.repr left ++ " vs " ++ Nat.repr right ++ ")"
  | .constantClash left right => "cannot unify constants " ++ left.text ++ " and " ++ right.text
  | .conflictingBinding left right => left.text ++ " and " ++ right.text ++ " would need conflicting bindings"

/-- the two ways to unify -/
inductive Unifier where
  | singlePass
  | complete
deriving DecidableEq, Repr

namespace Unifier

/-- the name in settings -/
def name : Unifier → String
  | .singlePass => "single_pass"
  | .complete => "complete"

/-- the unifier that a name or its hyphenated form denotes -/
def ofName? : String → Option Unifier
  | "single_pass" => some .singlePass
  | "single-pass" => some .singlePass
  | "complete" => some .complete
  | _ => none

/-- the variable that the term is, if it has no binding yet -/
def unbound? (s : Substitution) : Term → Option String
  | .var x => if s.isBound x then none else some x
  | .const _ => none

/-- the single pass at one pair: the left variable is bound first, then the right one -/
def singlePassStep (s : Substitution) (a b : Term) : Except UnifyError Substitution :=
  if a = b then .ok s
  else
    match unbound? s a, unbound? s b with
    | some x, _ => .ok (s.bind x b)
    | none, some y => .ok (s.bind y a)
    | none, none => .error (if a.isVar || b.isVar then .conflictingBinding a b else .constantClash a b)

/-- the complete unifier at one pair, both sides followed through the bindings -/
def completeStep (s : Substitution) (a b : Term) : Except UnifyError Substitution :=
  let u := s.walk a
  let v := s.walk b
  if u = v then .ok s
  else
    match u, v with
    | .var x, v => .ok (s.bind x v)
    | u, .var y => .ok (s.bind y u)
    | u, v => .error (.constantClash u v)

/-- goes over the pairs from left to right; the first failure counts -/
def overPairs (step : Substitution → Term → Term → Except UnifyError Substitution) :
    Substitution → List (Term × Term) → Except UnifyError Substitution
  | s, [] => .ok s
  | s, (a, b) :: rest =>
    match step s a b with
    | .error e => .error e
    | .ok s => overPairs step s rest

/-- unifies two argument lists -/
def unify (u : Unifier) (left right : List Term) : Except UnifyError Substitution :=
  if left.length ≠ right.length then .error (.lengthMismatch left.length right.length)
  else
    match u with
    | .singlePass => overPairs singlePassStep .empty (left.zip right)
    | .complete => (overPairs completeStep .empty (left.zip right)).map Substitution.normalized

end Unifier

end Refutation
