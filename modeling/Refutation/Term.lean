/-
Terms: variables and constants. There are no function symbols, so a term is a name and its kind.

In text the kind is read off the name: a name that starts with a lowercase character is a variable, every other name, the
empty one included, is a constant.
-/
import Refutation.Text.Lowercase

namespace Refutation

/-- an argument of a predicate -/
inductive Term where
  | var (name : String)
  | const (name : String)
deriving DecidableEq, Repr

/-- the name starts with a lowercase character -/
def isVariableName (name : String) : Bool :=
  match name.toList with
  | [] => false
  | c :: _ => Text.isLowercase c

namespace Term

/-- the term that a name denotes in text -/
def ofName (name : String) : Term := if isVariableName name then .var name else .const name

/-- the name as written -/
def name : Term → String
  | .var x => x
  | .const a => a

/-- the term is a variable -/
def isVar : Term → Bool
  | .var _ => true
  | .const _ => false

/-- the variable's name, if the term is one -/
def var? : Term → Option String
  | .var x => some x
  | .const _ => none

/-- a term is written as its name -/
def text (t : Term) : String := t.name

end Term

end Refutation
