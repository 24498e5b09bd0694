/-
Blanks: the characters with the Unicode property White_Space, and what is done with them. Formulas, arguments, console
lines and report entries are trimmed of them; console commands are cut into words at them.
-/
import Refutation.Text.Span

namespace Refutation.Text

/-- code points with the property White_Space -/
def blankTable : List Span :=
  [⟨0x09, 0x0D, 1⟩, ⟨0x20, 0x20, 1⟩, ⟨0x85, 0x85, 1⟩, ⟨0xA0, 0xA0, 1⟩, ⟨0x1680, 0x1680, 1⟩, ⟨0x2000, 0x200A, 1⟩,
    ⟨0x2028, 0x2029, 1⟩, ⟨0x202F, 0x202F, 1⟩, ⟨0x205F, 0x205F, 1⟩, ⟨0x3000, 0x3000, 1⟩]

/-- the character has the property White_Space -/
def isBlank (c : Char) : Bool := inTable blankTable c.toNat

/-- without the leading blanks -/
def trimStart (cs : List Char) : List Char := cs.dropWhile isBlank

/-- without the trailing blanks -/
def trimEnd (cs : List Char) : List Char := (cs.reverse.dropWhile isBlank).reverse

/-- without the blanks at both ends -/
def trim (cs : List Char) : List Char := trimEnd (trimStart cs)

/-- the maximal runs of characters that are not blank -/
def words (cs : List Char) : List (List Char) := (cs.splitOnP isBlank).filter (!·.isEmpty)

theorem trimStart_sublist (cs : List Char) : (trimStart cs).Sublist cs := List.dropWhile_sublist _

theorem trimEnd_sublist (cs : List Char) : (trimEnd cs).Sublist cs := by
  have h := (List.dropWhile_sublist isBlank (l := cs.reverse)).reverse
  simpa [trimEnd] using h

theorem trim_sublist (cs : List Char) : (trim cs).Sublist cs :=
  (trimEnd_sublist _).trans (trimStart_sublist cs)

end Refutation.Text
