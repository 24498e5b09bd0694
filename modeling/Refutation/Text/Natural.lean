/-
Natural numbers in decimal.

`readNatural` reads an optional `+` and one or more ASCII digits, from left to right, and refuses a number that does not
fit in a 64-bit word as soon as the digits read so far no longer fit. So a fault further right is reported only when the
digits before it fit.
-/
namespace Refutation.Text

/-- the numbers below this bound fit in a word -/
def wordBound : Nat := Nat.pow 2 64

/-- why a text is not a number -/
inductive NaturalError where
  | empty
  | badDigit
  | tooLarge
deriving DecidableEq, Repr

/-- the wording of a fault -/
def NaturalError.message : NaturalError → String
  | .empty => "cannot parse integer from empty string"
  | .badDigit => "invalid digit found in string"
  | .tooLarge => "number too large to fit in target type"

/-- the value of an ASCII digit -/
def digitValue? (c : Char) : Option Nat :=
  if '0' ≤ c ∧ c ≤ '9' then some (c.toNat - '0'.toNat) else none

/-- reads digits onto the number read so far -/
def readDigits (read : Nat) : List Char → Except NaturalError Nat
  | [] => .ok read
  | c :: rest =>
    match digitValue? c with
    | none => .error .badDigit
    | some d => if read * 10 + d < wordBound then readDigits (read * 10 + d) rest else .error .tooLarge

/-- the number that a text denotes: an optional `+`, then one or more digits -/
def readNatural : List Char → Except NaturalError Nat
  | [] => .error .empty
  | ['+'] => .error .badDigit
  | '+' :: digits => readDigits 0 digits
  | digits => readDigits 0 digits

end Refutation.Text
