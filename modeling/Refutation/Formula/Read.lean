/-
Reading formulas.

A formula is read by its shape: a quantifier is dropped, an implication is read as the disjunction `¬A ∨ B` (so the
negation lands on the first disjunct of `A`), a disjunction is read operand by operand. A literal is `Name(args)` with
an optional `¬`; text of any other form is a proposition named by the whole text, and what follows the first `)` is
ignored. Reading ends because each step leaves fewer quantifiers and arrows.
-/
import Refutation.Clause
import Refutation.Formula.Shape

namespace Refutation.Formula

open Text

/-- the arguments between brackets: none if all is blank, else what stands between the commas -/
def readArgs (cs : List Char) : List Term :=
  if (trim cs).isEmpty then [] else (cs.splitOn ',').map fun arg => Term.ofName (String.ofList (trim arg))

/-- the text of the arguments of `name(args)`, given the name and what follows it -/
def argsText? (name rest : List Char) : Option (List Char) :=
  match name, rest with
  | _ :: _, '(' :: inner => beforeFirst ')' inner
  | _, _ => none

/-- the atom that a trimmed text denotes -/
def readAtom (body : List Char) : Atom :=
  let name := body.takeWhile isNameChar
  match argsText? name (body.dropWhile isNameChar) with
  | some args => ⟨String.ofList name, readArgs args⟩
  | none => Atom.prop (String.ofList body)

/-- the sign of a literal and the text of its atom -/
def splitSign : List Char → Bool × List Char
  | '¬' :: rest => (false, trim rest)
  | text => (true, text)

/-- the literal that a text denotes -/
def readLiteral (cs : List Char) : Except FormulaError Literal :=
  let (positive, body) := splitSign (trim cs)
  if body.isEmpty then .error (.emptyOperand (String.ofList (trim cs))) else .ok ⟨positive, readAtom body⟩

/-- the literals that a list of texts denotes; the first fault counts -/
def readLiterals : List (List Char) → Except FormulaError (List Literal)
  | [] => .ok []
  | part :: rest =>
    match readLiteral part with
    | .error e => .error e
    | .ok l =>
      match readLiterals rest with
      | .error e => .error e
      | .ok ls => .ok (l :: ls)

/-- the clause that a text denotes -/
def readClause (cs : List Char) : Except FormulaError Clause :=
  if (trim cs).isEmpty then .error .empty
  else
    match _h : shape (trim cs) with
    | .error e => .error e
    | .ok (.quantified body) => readClause body
    | .ok (.implication left right) => readClause (implicationText left right)
    | .ok (.disjunction parts) => (readLiterals parts).map Clause.mk
    | .ok (.literal text) => (readLiterals [text]).map Clause.mk
termination_by pending cs
decreasing_by
  · exact Nat.lt_of_lt_of_le (pending_quantified _h) (pending_le_of_sublist (trim_sublist cs))
  · exact Nat.lt_of_lt_of_le (pending_implication _h) (pending_le_of_sublist (trim_sublist cs))

/-- the clause that a formula denotes -/
def read (formula : String) : Except FormulaError Clause := readClause formula.toList

end Refutation.Formula
