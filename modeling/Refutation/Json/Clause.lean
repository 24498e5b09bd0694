/-
Terms, literals and clauses as JSON.
-/
import Refutation.Clause
import Refutation.Json.Fields

namespace Refutation

/-- a term is an object that names its kind -/
def Term.toJson : Term → Json
  | .var x => .object [("Var", .object [("name", .string x)])]
  | .const a => .object [("Const", .object [("name", .string a)])]

/-- an atom is a record -/
def Atom.toJson (a : Atom) : Json :=
  .object [("predicate", .string a.predicate), ("args", .array (a.args.map Term.toJson))]

/-- a literal is a record -/
def Literal.toJson (l : Literal) : Json := .object [("positive", .bool l.positive), ("atom", l.atom.toJson)]

/-- a clause is a record -/
def Clause.toJson (c : Clause) : Json := .object [("literals", .array (c.literals.map Literal.toJson))]

/-- the record that holds a term's name -/
def Term.nameOfJson? (j : Json) : Option String :=
  match Json.fields? ["name"] j with
  | some [some name] => name.string?
  | _ => none

/-- the term that a value denotes -/
def Term.ofJson? : Json → Option Term
  | .object [("Var", j)] => (Term.nameOfJson? j).map .var
  | .object [("Const", j)] => (Term.nameOfJson? j).map .const
  | _ => none

/-- the atom that a value denotes -/
def Atom.ofJson? (j : Json) : Option Atom :=
  match Json.fields? ["predicate", "args"] j with
  | some [some predicate, some args] => do
    return ⟨← predicate.string?, ← args.list? Term.ofJson?⟩
  | _ => none

/-- the literal that a value denotes -/
def Literal.ofJson? (j : Json) : Option Literal :=
  match Json.fields? ["positive", "atom"] j with
  | some [some positive, some atom] => do
    return ⟨← positive.bool?, ← Atom.ofJson? atom⟩
  | _ => none

/-- the clause that a value denotes -/
def Clause.ofJson? (j : Json) : Option Clause :=
  match Json.fields? ["literals"] j with
  | some [some literals] => (literals.list? Literal.ofJson?).map Clause.mk
  | _ => none

end Refutation
