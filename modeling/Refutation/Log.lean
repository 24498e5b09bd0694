/-
Log records: what a program reports while it works, beside its answer. A record has a level, a message and named fields
whose values are text.
-/
namespace Refutation.Log

/-- how much a record matters -/
inductive Level where
  | debug
  | info
  | warn
deriving DecidableEq, Repr

/-- the name of a level -/
def Level.name : Level → String
  | .debug => "DEBUG"
  | .info => "INFO"
  | .warn => "WARN"

/-- one report -/
structure Record where
  level : Level
  message : String
  fields : List (String × String)
deriving DecidableEq, Repr

/-- a truth value as a field -/
def flag (b : Bool) : String := if b then "true" else "false"

/-- a list of numbers as a field -/
def numbers (ns : List Nat) : String := "[" ++ String.intercalate ", " (ns.map Nat.repr) ++ "]"

/-- a record on one line -/
def Record.line (r : Record) : String :=
  String.intercalate " " ([r.level.name, r.message] ++ r.fields.map fun (name, value) => name ++ "=" ++ value)

end Refutation.Log
