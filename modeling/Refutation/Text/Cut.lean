/-
Cutting text at a mark: before its first or last occurrence, after a phrase, at line ends.
-/
namespace Refutation.Text

variable {α : Type} [BEq α]

/-- what stands before the first occurrence of the mark, if there is one -/
def beforeFirst (mark : α) (cs : List α) : Option (List α) :=
  if cs.contains mark then some (cs.takeWhile (· != mark)) else none

/-- what stands before the last occurrence of the mark, if there is one -/
def beforeLast (mark : α) (cs : List α) : Option (List α) :=
  if cs.contains mark then some ((cs.reverse.dropWhile (· != mark)).tail).reverse else none

theorem beforeLast_sublist {mark : α} {cs inner : List α} (h : beforeLast mark cs = some inner) :
    inner.Sublist cs := by
  unfold beforeLast at h
  split at h
  · obtain rfl := Option.some.inj h
    have h := ((List.tail_sublist _).trans (List.dropWhile_sublist (· != mark) (l := cs.reverse))).reverse
    simpa using h
  · cases h

/-- what follows the first occurrence of the phrase, if there is one -/
def afterPhrase (phrase : List α) : List α → Option (List α)
  | [] => if phrase.isEmpty then some [] else none
  | c :: rest =>
    if phrase.isPrefixOf (c :: rest) then some ((c :: rest).drop phrase.length) else afterPhrase phrase rest

/-- a text with one `mark` is the text before it, the mark, and the text after it -/
theorem eq_append_of_count_eq_one [LawfulBEq α] {mark : α} {cs : List α} (h : cs.count mark = 1) :
    cs = cs.takeWhile (· != mark) ++ mark :: (cs.dropWhile (· != mark)).tail := by
  induction cs with
  | nil => simp at h
  | cons c rest ih =>
    by_cases hc : c = mark
    · subst hc
      simp
    · have hrest : rest.count mark = 1 := by simpa [List.count_cons, hc] using h
      simpa [hc] using ih hrest

/-- a line without the carriage return that ends it -/
def dropReturn (ret : α) (line : List α) : List α :=
  if line.getLast? == some ret then line.dropLast else line

/-- The lines of a text. A line ends at a feed, or at a return followed by a feed; what follows the last feed is a line
only when it is not empty, and keeps a final return. -/
def linesAt (feed ret : α) (cs : List α) : List (List α) :=
  let pieces := cs.splitOn feed
  let last := pieces.getLastD []
  pieces.dropLast.map (dropReturn ret) ++ (if last.isEmpty then [] else [last])

/-- the lines of a text of characters -/
def lines (cs : List Char) : List (List Char) := linesAt '\n' '\r' cs

end Refutation.Text
