/-
The outermost shape of a formula.

A text that starts with `∀` is quantified when a variable and a bracketed, non-blank body follow; otherwise it is taken
apart at `∨` only, and an arrow in it is plain text. Any other text with an arrow is an implication, which must have one
arrow and two non-blank sides. What is left is a disjunction if it has a `∨`, and a single literal if not.

`shape_quantified` and `shape_implication` say that what is read next is smaller: the body of a quantified formula has
one `∀` less, and the disjunction that stands for an implication has no arrow.
-/
import Refutation.Formula.Error
import Refutation.Term
import Refutation.Text.Blank
import Refutation.Text.Cut
import Refutation.Text.Name

namespace Refutation.Formula

open Text

/-- the outermost shape of a formula, with its parts as text -/
inductive Shape where
  | quantified (body : List Char)
  | implication (antecedent consequent : List Char)
  | disjunction (parts : List (List Char))
  | literal (text : List Char)
deriving DecidableEq, Repr

/-- the text inside the brackets: up to the last `)`, trimmed, not blank -/
def bracketed? : List Char → Option (List Char)
  | '(' :: inner =>
    match (beforeLast ')' inner).map trim with
    | some (c :: body) => some (c :: body)
    | _ => none
  | _ => none

/-- the body of `x (body)`, the text after a `∀`, where `x` is a variable name -/
def quantifiedBody? (cs : List Char) : Option (List Char) :=
  let rest := trimStart cs
  if isVariableName (String.ofList (rest.takeWhile isNameChar)) then
    bracketed? (trimStart (rest.dropWhile isNameChar))
  else none

/-- a disjunction if there is a `∨`, else a literal -/
def splitDisjunction (cs : List Char) : Except FormulaError Shape :=
  if cs.contains '∨' then
    let parts := (cs.splitOn '∨').map trim
    if parts.any List.isEmpty then .error (.emptyOperand (String.ofList cs)) else .ok (.disjunction parts)
  else .ok (.literal cs)

/-- the two sides of the one arrow -/
def splitImplication (cs : List Char) : Except FormulaError Shape :=
  if cs.count '→' ≠ 1 then .error (.manyImplications (String.ofList cs) (cs.count '→'))
  else
    let left := trim (cs.takeWhile (· != '→'))
    let right := trim ((cs.dropWhile (· != '→')).tail)
    if left.isEmpty || right.isEmpty then .error (.emptyOperand (String.ofList cs))
    else .ok (.implication left right)

/-- the outermost shape of a text -/
def shape (cs : List Char) : Except FormulaError Shape :=
  match cs with
  | '∀' :: rest =>
    match quantifiedBody? rest with
    | some body => .ok (.quantified body)
    | none => splitDisjunction cs
  | _ => if cs.contains '→' then splitImplication cs else splitDisjunction cs

/-- the disjunction that an implication is read as: `¬` lands on the first disjunct of the antecedent -/
def implicationText (antecedent consequent : List Char) : List Char :=
  '¬' :: (antecedent ++ (' ' :: '∨' :: ' ' :: consequent))

/-- how much of a text is still to be taken apart: its quantifiers and arrows -/
def pending (cs : List Char) : Nat := cs.count '∀' + cs.count '→'

/-! ## What is left to read gets smaller -/

theorem bracketed_sublist {cs body : List Char} (h : bracketed? cs = some body) : body.Sublist cs := by
  unfold bracketed? at h
  split at h
  · rename_i inner
    split at h
    · rename_i c rest heq
      obtain rfl := Option.some.inj h
      obtain ⟨found, hfound, htrim⟩ := Option.map_eq_some_iff.1 heq
      rw [← htrim]
      exact ((trim_sublist found).trans (beforeLast_sublist hfound)).cons _
    · cases h
  · cases h

theorem quantifiedBody_sublist {cs body : List Char} (h : quantifiedBody? cs = some body) : body.Sublist cs := by
  simp only [quantifiedBody?] at h
  split at h
  · exact (bracketed_sublist h).trans ((trimStart_sublist _).trans ((List.dropWhile_sublist _).trans
      (trimStart_sublist cs)))
  · cases h

theorem splitDisjunction_ne_quantified {cs body : List Char} :
    splitDisjunction cs ≠ .ok (.quantified body) := by
  simp only [splitDisjunction]
  split <;> try split
  all_goals simp

theorem splitDisjunction_ne_implication {cs left right : List Char} :
    splitDisjunction cs ≠ .ok (.implication left right) := by
  simp only [splitDisjunction]
  split <;> try split
  all_goals simp

/-- a quantified text is `∀` and a text that holds the body -/
theorem shape_quantified {cs body : List Char} (h : shape cs = .ok (.quantified body)) :
    ∃ rest, cs = '∀' :: rest ∧ body.Sublist rest := by
  unfold shape at h
  split at h
  · rename_i rest
    split at h
    · rename_i found hfound
      obtain rfl : found = body := by simpa using h
      exact ⟨rest, rfl, quantifiedBody_sublist hfound⟩
    · exact absurd h splitDisjunction_ne_quantified
  · split at h
    · simp only [splitImplication] at h
      split at h
      · cases h
      · split at h <;> cases h
    · exact absurd h splitDisjunction_ne_quantified

/-- an implication has one arrow, and its sides are the trimmed texts around it -/
theorem shape_implication {cs left right : List Char} (h : shape cs = .ok (.implication left right)) :
    cs.count '→' = 1 ∧ left = trim (cs.takeWhile (· != '→')) ∧
      right = trim ((cs.dropWhile (· != '→')).tail) := by
  unfold shape at h
  split at h
  · split at h
    · simp at h
    · exact absurd h splitDisjunction_ne_implication
  · split at h
    · simp only [splitImplication] at h
      split at h
      · cases h
      · rename_i hcount
        split at h
        · cases h
        · simp only [Except.ok.injEq, Shape.implication.injEq] at h
          exact ⟨by simpa using hcount, h.1.symm, h.2.symm⟩
    · exact absurd h splitDisjunction_ne_implication

theorem pending_le_of_sublist {cs ds : List Char} (h : cs.Sublist ds) : pending cs ≤ pending ds :=
  Nat.add_le_add (h.count_le _) (h.count_le _)

theorem pending_quantified {cs body : List Char} (h : shape cs = .ok (.quantified body)) :
    pending body < pending cs := by
  obtain ⟨rest, rfl, hsub⟩ := shape_quantified h
  have hle := pending_le_of_sublist hsub
  simp only [pending, List.count_cons] at *
  simp
  omega

theorem pending_implication {cs left right : List Char} (h : shape cs = .ok (.implication left right)) :
    pending (implicationText left right) < pending cs := by
  obtain ⟨hone, rfl, rfl⟩ := shape_implication h
  have hcs := eq_append_of_count_eq_one hone
  have hl := pending_le_of_sublist (trim_sublist (cs.takeWhile (· != '→')))
  have hr := pending_le_of_sublist (trim_sublist ((cs.dropWhile (· != '→')).tail))
  have htotal : pending cs = pending (cs.takeWhile (· != '→')) + 1 +
      pending ((cs.dropWhile (· != '→')).tail) := by
    conv => lhs; rw [hcs]
    simp only [pending, List.count_append, List.count_cons]
    simp
    omega
  simp only [implicationText, pending, List.count_append, List.count_cons] at *
  simp
  omega

end Refutation.Formula
