/-
JSON values.

An object keeps its members in order, repeated names included. Well-formed text need not have a value: an escape in it
may name half of a surrogate pair. A string with such an escape, and an object with such a name, is `noValue`, which is
enough to skip over it.
-/
import Refutation.Json.Number

namespace Refutation

/-- a JSON value -/
inductive Json where
  | null
  | bool (b : Bool)
  | number (n : Json.Number)
  | string (s : String)
  | array (items : List Json)
  | object (members : List (String × Json))
  | noValue

namespace Json

/-- a natural number as a value -/
def ofNat (n : Nat) : Json := .number (.natural n)

mutual

/-- The value can be held in memory as it is: it has no part without a value, its numbers are read as finite doubles, and
it is not nested more than `room` levels deep. -/
def holdable (room : Nat) : Json → Bool
  | .null | .bool _ | .string _ => true
  | .number n => n.fitsDouble
  | .array items => 0 < room && holdableItems (room - 1) items
  | .object members => 0 < room && holdableMembers (room - 1) members
  | .noValue => false

/-- every item can be held -/
def holdableItems (room : Nat) : List Json → Bool
  | [] => true
  | item :: rest => holdable room item && holdableItems room rest

/-- every member can be held -/
def holdableMembers (room : Nat) : List (String × Json) → Bool
  | [] => true
  | (_, value) :: rest => holdable room value && holdableMembers room rest

end

end Json

end Refutation
