/-
Numbers in JSON, and the doubles that they are read as.

A number is a natural number, written with digits only, or a sign, digits and a power of ten. It becomes a double in three
roundings: its leading digits, as many as fit in a word, are rounded to a double, so is the power of ten that they stand
before, and so is the product of the two. Near the largest double this differs from rounding the number itself:
`17976931348623158e292` is out of range and the larger `179769313486231590e291` is not.

`leading_eq` says which digits are the leading ones, and `nearestDouble_of_lt` that small numbers are not changed.
-/
import Refutation.Text.Natural

namespace Refutation.Json

/-- a number: a natural number, or a sign, digits and a power of ten -/
inductive Number where
  | natural (n : Nat)
  | decimal (negative : Bool) (digits : Nat) (exponent : Int)
deriving DecidableEq, Repr

namespace Number

/-- numbers from here on are rounded beyond the largest double -/
def doubleBound : Nat := Nat.pow 2 1024 - Nat.pow 2 970

/-- the largest power of ten that has a double -/
def maxPower : Nat := 308

/-- the nearest number with at most 53 binary digits; a tie goes to the even neighbour -/
def nearestDouble (n : Nat) : Nat :=
  let unit := Nat.pow 2 (n.log2 + 1 - 53)
  let below := n / unit
  let rest := n % unit
  if 2 * rest < unit || (2 * rest == unit && below % 2 == 0) then below * unit else (below + 1) * unit

theorem nearestDouble_of_lt {n : Nat} (h : n < Nat.pow 2 53) : nearestDouble n = n := by
  have hlog : n.log2 + 1 - 53 = 0 := by
    by_cases hn : n = 0
    · simp [hn]
    · have := (Nat.log2_lt hn).2 h
      omega
  simp [nearestDouble, hlog, Nat.mod_one]

/-- the leading digits that fit in a word, and how many digits follow them -/
def leading (n : Nat) : Nat × Nat :=
  if n < Text.wordBound then (n, 0)
  else
    let (digits, dropped) := leading (n / 10)
    (digits, dropped + 1)
termination_by n
decreasing_by
  rename_i h
  have : 0 < Text.wordBound := by decide
  omega

theorem leading_lt (n : Nat) : (leading n).1 < Text.wordBound := by
  fun_induction leading n with
  | case1 n h => exact h
  | case2 n h digits dropped heq ih => simpa [heq] using ih

theorem leading_eq (n : Nat) : (leading n).1 = n / Nat.pow 10 (leading n).2 := by
  fun_induction leading n with
  | case1 n h => simp
  | case2 n h digits dropped heq ih =>
    rw [heq] at ih
    simp only at ih
    rw [ih, Nat.div_div_eq_div_mul, Nat.mul_comm]
    rfl

/-- digits before a power of ten are read as a finite double -/
def scaledFits (digits : Nat) (exponent : Int) : Bool :=
  let (lead, dropped) := leading digits
  match exponent + dropped with
  | .ofNat power => lead == 0 || power ≤ maxPower && nearestDouble lead * nearestDouble (Nat.pow 10 power) < doubleBound
  | .negSucc _ => true

/-- the number is read as a finite double -/
def fitsDouble : Number → Bool
  | .natural n => scaledFits n 0
  | .decimal _ digits exponent => scaledFits digits exponent

end Number

end Refutation.Json
