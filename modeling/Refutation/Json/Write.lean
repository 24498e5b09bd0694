/-
Writing JSON, on one line or spread over lines with two blanks for each level. Strings are written with as few escapes as
possible: the quote, the backslash and the control characters. An empty array or object stays on its line.
-/
import Refutation.Json.Value

namespace Refutation.Json

/-- a hexadecimal digit -/
def hexDigit (n : Nat) : Char := Nat.digitChar n

/-- a character inside a string -/
def escape (c : Char) : List Char :=
  if c = '"' then ['\\', '"']
  else if c = '\\' then ['\\', '\\']
  else if c = '\x08' then ['\\', 'b']
  else if c = '\t' then ['\\', 't']
  else if c = '\n' then ['\\', 'n']
  else if c = '\x0c' then ['\\', 'f']
  else if c = '\r' then ['\\', 'r']
  else if c.toNat < 0x20 then ['\\', 'u', '0', '0', hexDigit (c.toNat / 16), hexDigit (c.toNat % 16)]
  else [c]

/-- a string in quotes -/
def quote (s : String) : List Char := '"' :: s.toList.flatMap escape ++ ['"']

/-- a number -/
def Number.write : Number → List Char
  | .natural n => Nat.toDigits 10 n
  | .decimal negative digits exponent =>
    (if negative then ['-'] else []) ++ Nat.toDigits 10 digits ++ 'e' ::
      match exponent with
      | .ofNat k => Nat.toDigits 10 k
      | .negSucc k => '-' :: Nat.toDigits 10 (k + 1)

/-- a truth value -/
def writeBool (b : Bool) : List Char := if b then "true".toList else "false".toList

mutual

/-- a value on one line; what has no value is written as `null` -/
def writeCompact : Json → List Char
  | .null | .noValue => "null".toList
  | .bool b => writeBool b
  | .number n => n.write
  | .string s => quote s
  | .array [] => ['[', ']']
  | .array (item :: rest) => '[' :: writeCompact item ++ writeCompactItems rest
  | .object [] => ['\x7b', '\x7d']
  | .object ((name, value) :: rest) =>
    '\x7b' :: quote name ++ ':' :: writeCompact value ++ writeCompactMembers rest

/-- the items after the first, and the end of the array -/
def writeCompactItems : List Json → List Char
  | [] => [']']
  | item :: rest => ',' :: writeCompact item ++ writeCompactItems rest

/-- the members after the first, and the end of the object -/
def writeCompactMembers : List (String × Json) → List Char
  | [] => ['\x7d']
  | (name, value) :: rest => ',' :: quote name ++ ':' :: writeCompact value ++ writeCompactMembers rest

end

/-- a new line at a level -/
def newLine (level : Nat) : List Char := '\n' :: List.replicate (2 * level) ' '

mutual

/-- a value spread over lines, from a level on -/
def writePretty (level : Nat) : Json → List Char
  | .null | .noValue => "null".toList
  | .bool b => writeBool b
  | .number n => n.write
  | .string s => quote s
  | .array [] => ['[', ']']
  | .array (item :: rest) =>
    '[' :: newLine (level + 1) ++ writePretty (level + 1) item ++ writePrettyItems level rest
  | .object [] => ['\x7b', '\x7d']
  | .object ((name, value) :: rest) =>
    '\x7b' :: newLine (level + 1) ++ quote name ++ ':' :: ' ' :: writePretty (level + 1) value ++
      writePrettyMembers level rest

/-- the items after the first, and the end of the array -/
def writePrettyItems (level : Nat) : List Json → List Char
  | [] => newLine level ++ [']']
  | item :: rest => ',' :: newLine (level + 1) ++ writePretty (level + 1) item ++ writePrettyItems level rest

/-- the members after the first, and the end of the object -/
def writePrettyMembers (level : Nat) : List (String × Json) → List Char
  | [] => newLine level ++ ['\x7d']
  | (name, value) :: rest =>
    ',' :: newLine (level + 1) ++ quote name ++ ':' :: ' ' :: writePretty (level + 1) value ++
      writePrettyMembers level rest

end

/-- the text of a value on one line -/
def compact (j : Json) : String := String.ofList j.writeCompact

/-- the text of a value spread over lines -/
def pretty (j : Json) : String := String.ofList (j.writePretty 0)

end Refutation.Json
