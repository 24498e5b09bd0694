/-
Taking values apart.

A record is an object with its fields as members, or an array of its fields in order. In an object no field may be
repeated; members with other names are skipped, or refused when the record is closed. A choice without fields is its
name, as a string or as the name of a member that is `null`.
-/
import Refutation.Json.Value
import Refutation.Text.Natural

namespace Refutation.Json

/-- a string -/
def string? : Json → Option String
  | .string s => some s
  | _ => none

/-- a truth value -/
def bool? : Json → Option Bool
  | .bool b => some b
  | _ => none

/-- a natural number that fits in a word -/
def nat? : Json → Option Nat
  | .number (.natural n) => if n < Text.wordBound then some n else none
  | _ => none

/-- an array of parts of one kind -/
def list? {α : Type} (part? : Json → Option α) : Json → Option (List α)
  | .array items => items.mapM part?
  | _ => none

/-- the name of a choice without fields -/
def choice? : Json → Option String
  | .string s => some s
  | .object [(name, .null)] => some name
  | _ => none

/-- the value of a field that occurs at most once -/
def field? (members : List (String × Json)) (name : String) : Option (Option Json) :=
  match members.filter (·.1 == name) with
  | [] => some none
  | [(_, value)] => some (some value)
  | _ => none

/-- the fields of a record, in the order of their names; a field may be absent -/
def fields? (names : List String) : Json → Option (List (Option Json))
  | .object members => names.mapM (field? members)
  | .array items =>
    if items.length ≤ names.length then
      some (items.map some ++ List.replicate (names.length - items.length) none)
    else none
  | _ => none

/-- the fields of a closed record: no other member is allowed -/
def closedFields? (names : List String) (j : Json) : Option (List (Option Json)) :=
  match j with
  | .object members => if members.all fun m => names.contains m.1 then fields? names j else none
  | _ => fields? names j

end Refutation.Json
