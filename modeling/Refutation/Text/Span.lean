/-
Character tables.

A property of characters that a standard fixes by listing code points is written as a table of spans in increasing
order. `inTable` is the membership test; it stops at the first span that lies beyond the code point, so a test on a small
code point looks at the front of the table only.
-/
namespace Refutation.Text

/-- the code points `first`, `first + stride`, and so on up to `last` -/
structure Span where
  first : Nat
  last : Nat
  stride : Nat
deriving DecidableEq, Repr

/-- the span lists the code point -/
def Span.holds (s : Span) (n : Nat) : Bool :=
  s.first ≤ n && n ≤ s.last && (n - s.first) % s.stride == 0

/-- some span of an increasing table lists the code point -/
def inTable : List Span → Nat → Bool
  | [], _ => false
  | s :: rest, n => if n < s.first then false else s.holds n || inTable rest n

end Refutation.Text
