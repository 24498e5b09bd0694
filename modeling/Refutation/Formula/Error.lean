/-
Why a text is not a formula. There are few reasons: most malformed text is read as a proposition named by the text.
-/
namespace Refutation

/-- why a text denotes no clause -/
inductive FormulaError where
  | empty
  | emptyOperand (text : String)
  | manyImplications (formula : String) (count : Nat)
deriving DecidableEq, Repr

/-- the wording of a fault -/
def FormulaError.message : FormulaError → String
  | .empty => "formula is empty"
  | .emptyOperand text => "empty operand in '" ++ text ++ "'"
  | .manyImplications formula count =>
    "expected a single implication, found " ++ Nat.repr count ++ " in '" ++ formula ++ "'"

end Refutation
