/-
Which texts are rejected, and why.

Reading drops the quantifiers of a text one after the other, and what is left is its `core`. The core decides. Unless it is
blank it is rejected for one of two reasons: it has more than one arrow (`ManyArrows`), or an operand is missing, beside its
one arrow (`ArrowGap`) or in a text that is taken apart at `∨` only (`PlainGap`). An operand is missing when it is blank or
a `¬` alone; but the first operand of an implication comes after one more `¬`, so that a `¬` alone will do there.

`Verdict gap result` says that the result is an error for an empty operand if `gap` holds, and no error otherwise. Each
function of the reader has its verdict, from a literal (`readLiteral_verdict`) to an implication (`readClause_arrow_verdict`).
-/
import Refutation.Proofs.Shapes

namespace Refutation.Formula

open Text

/-- what is left of a text when it is trimmed and its quantifiers are dropped -/
def core (cs : List Char) : List Char :=
  match _h : shape (trim cs) with
  | .ok (.quantified body) => core body
  | _ => trim cs
termination_by pending cs
decreasing_by exact Nat.lt_of_lt_of_le (pending_quantified _h) (pending_le_of_sublist (trim_sublist cs))

/-- nothing, or a sign alone -/
def Hollow (p : List Char) : Prop := p = [] ∨ p = ['¬']

/-- more than one arrow, in a text that does not start with `∀` -/
def ManyArrows (t : List Char) : Prop := t.head? ≠ some '∀' ∧ 2 ≤ t.count '→'

/-- one arrow, in a text that does not start with `∀`, and an operand on one of its sides that is blank, or a `¬` alone
unless it is the very first -/
def ArrowGap (t : List Char) : Prop :=
  t.head? ≠ some '∀' ∧ ∃ left right, t = left ++ '→' :: right ∧ '→' ∉ left ∧ '→' ∉ right ∧
    ([] ∈ operands left ++ operands right ∨ ['¬'] ∈ (operands left ++ operands right).tail)

/-- a text that starts with `∀` or has no arrow, with an operand between its `∨`s that is blank or a `¬` alone, or that is a
`¬` alone itself -/
def PlainGap (t : List Char) : Prop :=
  (t.head? = some '∀' ∨ '→' ∉ t) ∧ (('∨' ∈ t ∧ ∃ p ∈ operands t, Hollow p) ∨ t = ['¬'])

/-! ## The core of a text -/

section Core

variable {cs body : List Char}

theorem shape_eq_quantified :
    shape cs = .ok (.quantified body) ↔ ∃ rest, cs = '∀' :: rest ∧ quantifiedBody? rest = some body := by
  constructor
  · intro h
    obtain ⟨rest, rfl, -⟩ := shape_quantified h
    refine ⟨rest, rfl, ?_⟩
    unfold shape at h
    cases hbody : quantifiedBody? rest with
    | some found => simpa [hbody] using h
    | none =>
      simp only [hbody] at h
      exact absurd h splitDisjunction_ne_quantified
  · rintro ⟨rest, rfl, h⟩
    simp only [shape, h]

/-- the body of a quantified text is trimmed and not empty -/
theorem body_trimmed (h : shape cs = .ok (.quantified body)) : trim body = body ∧ body ≠ [] := by
  obtain ⟨rest, -, hbody⟩ := shape_eq_quantified.1 h
  obtain ⟨-, inner, -, -, -, -, rfl, hne⟩ := quantifiedBody_eq_some.1 hbody
  exact ⟨trim_trim inner, hne⟩

theorem trim_core (cs : List Char) : trim (core cs) = core cs := by
  fun_induction core cs with
  | case1 cs body hshape ih => exact ih
  | case2 cs hshape => exact trim_trim cs

theorem core_not_quantified (cs body : List Char) : shape (core cs) ≠ .ok (.quantified body) := by
  fun_induction core cs with
  | case1 cs inner hshape ih => exact ih
  | case2 cs hshape => exact hshape body

/-- **A text is read as its core is.** -/
theorem readClause_core (cs : List Char) : readClause (core cs) = readClause cs := by
  fun_induction core cs with
  | case1 cs body hshape ih =>
    obtain ⟨rest, hrest, hbody⟩ := shape_eq_quantified.1 hshape
    calc readClause (core body) = readClause body := ih
      _ = readClause cs := (readClause_quantified hrest hbody).symm
  | case2 cs hshape => exact readClause_trim cs

/-- only a blank text has nothing at its core -/
theorem core_eq_nil : core cs = [] ↔ Blanks cs := by
  rw [← trim_eq_nil]
  fun_induction core cs with
  | case1 cs body hshape ih =>
    obtain ⟨rest, hrest, -⟩ := shape_eq_quantified.1 hshape
    obtain ⟨hbody, hne⟩ := body_trimmed hshape
    rw [ih, hbody, hrest]
    simp [hne]
  | case2 cs hshape => rfl

/-- a core is taken apart at `∨` only, or it has an arrow that counts -/
theorem core_cases (cs : List Char) : Plain (core cs) ∨ ((core cs).head? ≠ some '∀' ∧ '→' ∈ core cs) := by
  by_cases hhead : (core cs).head? = some '∀'
  · obtain ⟨rest, hrest⟩ := List.head?_eq_some_iff.1 hhead
    refine Or.inl ⟨fun other hother => ?_, fun hne => absurd hhead hne⟩
    cases hbody : quantifiedBody? other with
    | none => rfl
    | some body => exact absurd (shape_eq_quantified.2 ⟨other, hother, hbody⟩) (core_not_quantified cs body)
  · by_cases harrow : '→' ∈ core cs
    · exact Or.inr ⟨hhead, harrow⟩
    · exact Or.inl ⟨fun rest hrest => absurd (by rw [hrest, List.head?_cons]) hhead, fun _ => harrow⟩

end Core

/-! ## Verdicts -/

/-- an error for an empty operand if there is a gap, and no error otherwise -/
inductive Verdict {α : Type} (gap : Prop) : Except FormulaError α → Prop where
  | accepted (a : α) (h : ¬ gap) : Verdict gap (.ok a)
  | refused (text : String) (h : gap) : Verdict gap (.error (.emptyOperand text))

namespace Verdict

variable {α β : Type} {gap gap' : Prop} {result : Except FormulaError α}

theorem congr (hiff : gap ↔ gap') (h : Verdict gap result) : Verdict gap' result := by
  rwa [← propext hiff]

theorem map (f : α → β) (h : Verdict gap result) : Verdict gap (result.map f) := by
  cases h with
  | accepted a h => exact .accepted (f a) h
  | refused text h => exact .refused text h

theorem emptyOperand_iff (h : Verdict gap result) : (∃ text, result = .error (.emptyOperand text)) ↔ gap := by
  cases h with
  | accepted a h => exact iff_of_false (by simp) h
  | refused text h => exact iff_of_true ⟨text, rfl⟩ h

theorem error_iff (h : Verdict gap result) : (∃ e, result = .error e) ↔ gap := by
  cases h with
  | accepted a h => exact iff_of_false (by simp) h
  | refused text h => exact iff_of_true ⟨_, rfl⟩ h

theorem ne_empty (h : Verdict gap result) : result ≠ .error .empty := by
  cases h <;> simp

theorem ne_manyImplications (h : Verdict gap result) (formula : String) (count : Nat) :
    result ≠ .error (.manyImplications formula count) := by
  cases h <;> simp

end Verdict

section Verdicts

variable {t left right : List Char}

/-- a sign at the end of a trimmed text is the whole of it -/
theorem trim_tail_eq_nil {rest : List Char} (h : trim ('¬' :: rest) = '¬' :: rest) : trim rest = [] ↔ rest = [] := by
  rw [trim_eq_nil]
  constructor
  · intro hblank
    rcases List.eq_nil_or_concat rest with rfl | ⟨front, c, rfl⟩
    · rfl
    · rw [List.concat_eq_append] at h hblank
      have hlast : isBlank c = false := by
        refine (trim_eq_self.1 h).2 c ?_
        rw [← List.cons_append, List.getLast?_concat]
        rfl
      rw [hblank c (by simp)] at hlast
      cases hlast
  · rintro rfl
    exact fun c hc => absurd hc List.not_mem_nil

/-- a literal needs an atom -/
theorem readLiteral_verdict {p : List Char} (hp : trim p = p) : Verdict (Hollow p) (readLiteral p) := by
  have hbody : (splitSign p).2 = [] ↔ Hollow p := by
    by_cases hhead : p.head? = some '¬'
    · obtain ⟨rest, rfl⟩ := List.head?_eq_some_iff.1 hhead
      simp [splitSign_not, Hollow, trim_tail_eq_nil hp]
    · rw [splitSign_of_head? hhead, Hollow]
      refine ⟨Or.inl, ?_⟩
      rintro (h | rfl)
      · exact h
      · exact absurd rfl hhead
  simp only [readLiteral, hp]
  split_ifs with h
  · exact .refused _ (hbody.1 (List.isEmpty_iff.1 h))
  · exact .accepted _ fun hollow => h (List.isEmpty_iff.2 (hbody.2 hollow))

theorem readLiterals_verdict {parts : List (List Char)} (hparts : ∀ p ∈ parts, trim p = p) :
    Verdict (∃ p ∈ parts, Hollow p) (readLiterals parts) := by
  induction parts with
  | nil => exact .accepted [] (by simp)
  | cons p parts ih =>
    have hfirst := readLiteral_verdict (hparts p List.mem_cons_self)
    have hrest := ih fun q hq => hparts q (List.mem_cons_of_mem p hq)
    rw [readLiterals]
    generalize readLiteral p = first at hfirst
    generalize readLiterals parts = rest at hrest
    cases hfirst with
    | refused text hp => exact .refused text ⟨p, List.mem_cons_self, hp⟩
    | accepted l hp =>
      cases hrest with
      | refused text hgap =>
        obtain ⟨q, hq, hollow⟩ := hgap
        exact .refused text ⟨q, List.mem_cons_of_mem p hq, hollow⟩
      | accepted ls hnone => exact .accepted (l :: ls) (by simpa [hp] using hnone)

/-- a plain text needs an atom in each of its operands -/
theorem readClause_plain_verdict (hplain : Plain (trim t)) (hne : trim t ≠ []) :
    Verdict (∃ p ∈ operands t, Hollow p) (readClause t) := by
  have hliterals := readLiterals_verdict fun p (hp : p ∈ operands t) => trim_of_mem_operands hp
  rw [readClause_eq, if_neg hne, hplain.shape]
  simp only [splitDisjunction]
  split_ifs with hor hempty
  · have hnone : [] ∈ operands (trim t) := by simpa [operands] using hempty
    exact .refused _ ⟨[], operands_trim t ▸ hnone, Or.inl rfl⟩
  · have hparts : ((trim t).splitOn '∨').map trim = operands t := operands_trim t
    rw [hparts]
    exact hliterals.map Clause.mk
  · have hone : operands t = [trim t] := by
      rw [← operands_trim, operands_of_notMem (by simpa using hor), trim_trim]
    rw [hone] at hliterals ⊢
    exact hliterals.map Clause.mk

theorem operands_of_blank (h : trim t = []) : operands t = [[]] := by
  rw [← operands_trim, h]
  rfl

/-- an implication needs an atom in each operand of its sides; one `¬` more stands before the first -/
theorem readClause_arrow_verdict (htrim : trim (left ++ '→' :: right) = left ++ '→' :: right)
    (hhead : (left ++ '→' :: right).head? ≠ some '∀') (hl : '→' ∉ left) (hr : '→' ∉ right) :
    Verdict ([] ∈ operands left ++ operands right ∨ ['¬'] ∈ (operands left ++ operands right).tail)
      (readClause (left ++ '→' :: right)) := by
  have hread : readClause (left ++ '→' :: right) = (splitImplication (left ++ '→' :: right)).bind readShape := by
    rw [readClause_eq, htrim, if_neg (by simp), shape_of_arrow hhead (by simp)]
  rw [hread, splitImplication_arrow hl hr]
  split_ifs with hblank
  · refine .refused _ (Or.inl (List.mem_append.2 ?_))
    rcases hblank with hblank | hblank
    · exact Or.inl (by simp [operands_of_blank hblank])
    · exact Or.inr (by simp [operands_of_blank hblank])
  · obtain ⟨p, ps, hparts⟩ := List.exists_cons_of_ne_nil (operands_ne_nil left)
    have hne : trim (implicationText (trim left) (trim right)) ≠ [] := by
      intro h
      have hmark := trim_eq_nil.1 h '¬' List.mem_cons_self
      rw [isBlank_of_mark (by decide)] at hmark
      cases hmark
    have hverdict := readClause_plain_verdict (plain_implicationText hl hr) hne
    rw [operands_implicationText hparts right] at hverdict
    refine hverdict.congr ?_
    -- after the `¬` only nothing at all is no atom
    have hfirst : Hollow ('¬' :: p) ↔ p = [] := by simp [Hollow]
    rw [hparts, List.exists_mem_cons_iff, hfirst]
    simp only [Hollow, and_or_left, exists_or, exists_eq_right, List.cons_append, List.tail_cons, List.mem_cons,
      eq_comm (a := ([] : List Char)) (b := p), or_assoc]

end Verdicts

/-! ## Rejections -/

section Rejections

variable {t left right : List Char}

/-- in a plain text operands are missing if one of them holds no atom -/
theorem gap_iff_of_plain (hplain : Plain t) (htrim : trim t = t) (hne : t ≠ []) :
    ArrowGap t ∨ PlainGap t ↔ ∃ p ∈ operands t, Hollow p := by
  have harrow : t.head? = some '∀' ∨ '→' ∉ t := or_iff_not_imp_left.2 hplain.arrow
  constructor
  · rintro (⟨hhead, left, right, rfl, -⟩ | ⟨-, ⟨-, hgap⟩ | rfl⟩)
    · exact absurd (by simp) (hplain.arrow hhead)
    · exact hgap
    · exact ⟨['¬'], by simp [operands_of_notMem, htrim], Or.inr rfl⟩
  · intro hgap
    refine Or.inr ⟨harrow, ?_⟩
    by_cases hor : '∨' ∈ t
    · exact Or.inl ⟨hor, hgap⟩
    · rw [operands_of_notMem hor, htrim] at hgap
      obtain ⟨p, hp, hollow⟩ := hgap
      rw [List.mem_singleton.1 hp] at hollow
      exact Or.inr (hollow.resolve_left hne)

/-- in a text with one arrow operands are missing if they are missing on one of its sides -/
theorem gap_iff_of_arrow (hhead : (left ++ '→' :: right).head? ≠ some '∀') (hl : '→' ∉ left) (hr : '→' ∉ right) :
    ArrowGap (left ++ '→' :: right) ∨ PlainGap (left ++ '→' :: right) ↔
      [] ∈ operands left ++ operands right ∨ ['¬'] ∈ (operands left ++ operands right).tail := by
  constructor
  · rintro (⟨-, left', right', heq, hl', -, hgap⟩ | ⟨hstart | hnone, -⟩)
    · -- the text before the first arrow is the same in both
      obtain ⟨htake, hdrop⟩ := span_mark hl right
      obtain ⟨htake', hdrop'⟩ := span_mark hl' right'
      rw [heq] at htake hdrop
      obtain rfl : left' = left := htake'.symm.trans htake
      obtain ⟨-, rfl⟩ := List.cons.inj (hdrop'.symm.trans hdrop)
      exact hgap
    · exact absurd hstart hhead
    · exact absurd (by simp) hnone
  · intro hgap
    exact Or.inl ⟨hhead, left, right, rfl, hl, hr, hgap⟩

/-- **What becomes of a text** is decided by its core: there is none, it has several arrows, or operands are missing exactly
if it is rejected. -/
theorem readClause_cases (cs : List Char) :
    (core cs = [] ∧ readClause cs = .error .empty) ∨
      (ManyArrows (core cs) ∧
        readClause cs = .error (.manyImplications (String.ofList (core cs)) ((core cs).count '→'))) ∨
      (core cs ≠ [] ∧ ¬ ManyArrows (core cs) ∧ Verdict (ArrowGap (core cs) ∨ PlainGap (core cs)) (readClause cs)) := by
  have htrim := trim_core cs
  have hcases := core_cases cs
  rw [← readClause_core cs]
  generalize core cs = t at *
  by_cases hne : t = []
  · rw [hne, readClause_eq, if_pos (by rfl)]
    exact Or.inl ⟨rfl, rfl⟩
  rcases hcases with hplain | ⟨hhead, harrow⟩
  · refine Or.inr (Or.inr ⟨hne, ?_, ?_⟩)
    · rintro ⟨hhead, hcount⟩
      rw [List.count_eq_zero.2 (hplain.arrow hhead)] at hcount
      omega
    · have hverdict := readClause_plain_verdict (t := t) (by rwa [htrim]) (by rwa [htrim])
      exact hverdict.congr (gap_iff_of_plain hplain htrim hne).symm
  · have hpos : 0 < t.count '→' := List.count_pos_iff.2 harrow
    by_cases hmany : 2 ≤ t.count '→'
    · refine Or.inr (Or.inl ⟨⟨hhead, hmany⟩, ?_⟩)
      rw [readClause_eq, htrim, if_neg hne, shape_of_arrow hhead harrow, splitImplication, if_pos (by omega)]
      rfl
    · refine Or.inr (Or.inr ⟨hne, fun h => hmany h.2, ?_⟩)
      have hone : t.count '→' = 1 := by omega
      obtain ⟨left, right, rfl, hl⟩ := List.eq_append_cons_of_mem harrow
      have hr : '→' ∉ right := by
        rw [List.count_append, List.count_cons_self] at hone
        exact List.count_eq_zero.1 (by omega)
      exact (readClause_arrow_verdict htrim hhead hl hr).congr (gap_iff_of_arrow hhead hl hr).symm

theorem ManyArrows.not_gap (h : ManyArrows t) : ¬ (ArrowGap t ∨ PlainGap t) := by
  obtain ⟨hhead, hmany⟩ := h
  rintro (⟨-, left, right, rfl, hl, hr, -⟩ | ⟨hstart | hnone, -⟩)
  · rw [List.count_append, List.count_cons_self, List.count_eq_zero.2 hl, List.count_eq_zero.2 hr] at hmany
    omega
  · exact hhead hstart
  · rw [List.count_eq_zero.2 hnone] at hmany
    omega

theorem not_manyArrows_nil : ¬ ManyArrows [] := by simp [ManyArrows]

theorem not_gap_nil : ¬ (ArrowGap [] ∨ PlainGap []) := by simp [ArrowGap, PlainGap]

end Rejections

/-- **Exactly which texts are rejected, and why.** A text is rejected as empty if it is blank; for its arrows if its core does
not start with `∀` and has more than one, and then the error names the core and their number; and for an empty operand if its
core lacks one. No other text is rejected. -/
theorem read_error_iff (s : String) :
    ((∃ e, read s = .error e) ↔
        Blanks s.toList ∨ ManyArrows (core s.toList) ∨ ArrowGap (core s.toList) ∨ PlainGap (core s.toList)) ∧
      (read s = .error .empty ↔ Blanks s.toList) ∧
      (∀ formula count, read s = .error (.manyImplications formula count) ↔
        ManyArrows (core s.toList) ∧ formula = String.ofList (core s.toList) ∧ count = (core s.toList).count '→') ∧
      ((∃ text, read s = .error (.emptyOperand text)) ↔ ArrowGap (core s.toList) ∨ PlainGap (core s.toList)) := by
  rw [← core_eq_nil]
  have hread : read s = readClause s.toList := rfl
  rw [hread]
  rcases readClause_cases s.toList with ⟨hnil, h⟩ | ⟨hmany, h⟩ | ⟨hne, hfew, hverdict⟩
  · rw [h, hnil]
    simp [not_manyArrows_nil, not_gap_nil]
  · have hgap := hmany.not_gap
    have hne : core s.toList ≠ [] := by
      intro hnil
      rw [hnil] at hmany
      exact not_manyArrows_nil hmany
    rw [h]
    refine ⟨iff_of_true ⟨_, rfl⟩ (Or.inr (Or.inl hmany)), iff_of_false (by simp) hne, ?_, iff_of_false (by simp) hgap⟩
    intro formula count
    simp only [Except.error.injEq, FormulaError.manyImplications.injEq]
    exact ⟨fun ⟨hf, hc⟩ => ⟨hmany, hf.symm, hc.symm⟩, fun ⟨_, hf, hc⟩ => ⟨hf.symm, hc.symm⟩⟩
  · refine ⟨?_, iff_of_false hverdict.ne_empty hne, fun formula count => ?_, hverdict.emptyOperand_iff⟩
    · rw [← hverdict.error_iff]
      simp [hne, hfew]
    · exact iff_of_false (hverdict.ne_manyImplications formula count) fun h => hfew h.1

/-- a `¬` alone will do for the first operand of an implication, and nowhere else -/
example : read "¬ ∨ P → Q" = .ok ⟨[⟨false, Atom.prop "¬"⟩, ⟨true, Atom.prop "P"⟩, ⟨true, Atom.prop "Q"⟩]⟩ ∧
    read "P ∨ ¬ → Q" = .error (.emptyOperand "¬") := by
  decide +kernel

end Refutation.Formula
