/-
Formulas that are read as they are meant.

A formula of the grammar is a disjunction of literals, or an implication between two disjunctions, under any number of
quantifiers, with blanks wherever they do not cut a name: `Written vs as bs` holds of its texts. It denotes the clause that
negates the first literal of the antecedent and keeps all others in order (`read_written`). Since literals hold no mark of
the grammar outside of their own brackets, no step of reading stops at the wrong place.

The first literal of the antecedent has to be positive for this. Between two literals `readClause_literals` says what is
read in either case (`Literal.antecedent`).
-/
import Refutation.Proofs.Written

namespace Refutation

open Text

/-- a literal of the grammar: a plain name, and arguments that are trimmed and hold no mark that ends them -/
structure Literal.Grammatical (l : Literal) : Prop where
  name : IsName l.atom.predicate
  args : ∀ t ∈ l.atom.args, t.Readable
  trimmed : ∀ t ∈ l.atom.args, trim t.name.toList = t.name.toList
  arrow : ∀ t ∈ l.atom.args, '→' ∉ t.name.toList
  args_ne : l.atom.args ≠ [Term.ofName ""]

instance (t : Term) : Decidable t.Readable :=
  decidable_of_iff (',' ∉ t.name.toList ∧ ')' ∉ t.name.toList ∧ '∨' ∉ t.name.toList ∧ Term.ofName t.name = t)
    ⟨fun ⟨comma, bracket, or, kind⟩ => ⟨comma, bracket, or, kind⟩, fun h => ⟨h.comma, h.bracket, h.or, h.kind⟩⟩

instance (l : Literal) : Decidable l.Grammatical :=
  decidable_of_iff
    (IsName l.atom.predicate ∧ (∀ t ∈ l.atom.args, t.Readable) ∧ (∀ t ∈ l.atom.args, trim t.name.toList = t.name.toList) ∧
      (∀ t ∈ l.atom.args, '→' ∉ t.name.toList) ∧ l.atom.args ≠ [Term.ofName ""])
    ⟨fun ⟨name, args, trimmed, arrow, args_ne⟩ => ⟨name, args, trimmed, arrow, args_ne⟩,
      fun h => ⟨h.name, h.args, h.trimmed, h.arrow, h.args_ne⟩⟩

namespace Literal.Grammatical

variable {l : Literal}

theorem tidy (hl : l.Grammatical) : l.Tidy := by
  obtain ⟨hor, hnot, -⟩ := isNameChar_marks
  refine ⟨⟨⟨hl.name.1, hl.name.notMem hor, fun hargs => ?_, fun _ => hl.name.2, hl.args⟩, trim_name hl.name.2, hl.trimmed,
    fun hblank => ?_⟩, fun _ hhead => hl.name.notMem hnot (List.mem_of_head? hhead)⟩
  · rw [Formula.readAtom_name hl.name.2, String.ofList_toList, Atom.prop, ← hargs]
  · obtain ⟨t, hargs, ht⟩ := List.map_eq_singleton_iff.1 hblank
    have hname : t.name = "" := String.toList_eq_nil_iff.1 ht
    have hkind := (hl.args t (by rw [hargs]; exact List.mem_singleton_self t)).kind
    rw [hname] at hkind
    exact hl.args_ne (by rw [hargs, hkind])

/-- a literal does not start as a quantifier does -/
theorem head?_text (hl : l.Grammatical) : l.text.toList.head? ≠ some '∀' := by
  intro hhead
  rw [toList_text] at hhead
  split_ifs at hhead
  · rw [hl.tidy.atom.head?_text] at hhead
    exact hl.name.notMem (isNameChar_of_mark (by decide)) (List.mem_of_head? hhead)
  · cases hhead

end Literal.Grammatical

namespace Formula

/-- the ways to write `∀v₁ (… ∀vₙ (A₁ ∨ … ∨ Aₖ → B₁ ∨ … ∨ Bₘ) …)`, or without the arrow if there is no antecedent -/
inductive Written : List String → List Literal → List Literal → List Char → Prop where
  | disjunction {bs : List Literal} {text : List Char} (h : Listed '∨' Literal.Written bs text) : Written [] [] bs text
  | implication {as bs : List Literal} {left right : List Char} (hleft : Listed '∨' Literal.Written as left)
      (hright : Listed '∨' Literal.Written bs right) : Written [] as bs (left ++ '→' :: right)
  | quantified {v : String} {vs : List String} {as bs : List Literal} {inner before gap space after : List Char}
      (hbefore : Blanks before) (hgap : Blanks gap) (hspace : Blanks space) (hafter : Blanks after)
      (h : Written vs as bs inner) :
      Written (v :: vs) as bs (before ++ '∀' :: (gap ++ v.toList ++ space ++ '(' :: (inner ++ [')'])) ++ after)

section Disjunctions

variable {ls : List Literal} {text : List Char}

theorem arrow_notMem (hls : ∀ l ∈ ls, l.Grammatical) (h : Listed '∨' Literal.Written ls text) : '→' ∉ text := by
  refine h.notMem (by decide) (by decide) fun l hl t ht => ?_
  exact ht.notMem (by decide) ((hls l hl).name.notMem (isNameChar_of_mark (by decide))) (hls l hl).arrow

theorem map_operands (hls : ∀ l ∈ ls, l.Grammatical) (h : Listed '∨' Literal.Written ls text) :
    (operands text).map readLiteral = ls.map .ok :=
  map_readLiteral_operands (fun l hl => (hls l hl).tidy) h

theorem head?_trim_ne (hls : ∀ l ∈ ls, l.Grammatical) (h : Listed '∨' Literal.Written ls text) :
    (trim text).head? ≠ some '∀' := by
  have hmap := map_operands hls h
  rw [← operands_trim] at hmap
  obtain ⟨p, ps, hparts⟩ := List.exists_cons_of_ne_nil (operands_ne_nil (trim text))
  have hmem : p ∈ operands (trim text) := hparts ▸ List.mem_cons_self
  have hread : readLiteral p ∈ ls.map Except.ok := hmap ▸ List.mem_map_of_mem hmem
  obtain ⟨l, hl, hread⟩ := List.mem_map.1 hread
  rw [head?_of_operands (trim_trim text) hparts (operand_ne_nil hmap hmem), ← trim_of_mem_operands hmem,
    ← head?_text (or_notMem_operand hmem).1 hread.symm]
  exact (hls l hl).head?_text

end Disjunctions

/-- dropping a quantifier: its body is read in its place, with the blanks around -/
theorem readClause_forall {v : String} {inner before gap space after : List Char} {c : Clause} (hname : IsName v)
    (hvar : isVariableName v = true) (hbefore : Blanks before) (hgap : Blanks gap) (hspace : Blanks space)
    (hafter : Blanks after) (h : readClause inner = .ok c) :
    readClause (before ++ '∀' :: (gap ++ v.toList ++ space ++ '(' :: (inner ++ [')'])) ++ after) = .ok c := by
  have htrim : trim (before ++ '∀' :: (gap ++ v.toList ++ space ++ '(' :: (inner ++ [')'])) ++ after) =
      '∀' :: (gap ++ v.toList ++ space ++ '(' :: (inner ++ [')'])) := by
    rw [trim_pad hbefore hafter, trim_eq_self]
    constructor
    · simpa using isBlank_of_mark (c := '∀') (by decide)
    · have hclose : '∀' :: (gap ++ v.toList ++ space ++ '(' :: (inner ++ [')'])) =
          '∀' :: (gap ++ v.toList ++ space ++ '(' :: inner) ++ [')'] := by simp
      rw [hclose, List.getLast?_concat]
      simpa using isBlank_of_mark (c := ')') (by decide)
  have hinner : trim inner ≠ [] := by
    intro hblank
    rw [readClause_eq, if_pos hblank] at h
    cases h
  have hbody : quantifiedBody? (gap ++ v.toList ++ space ++ '(' :: (inner ++ [')'])) = some (trim inner) :=
    quantifiedBody_eq_some.2 ⟨_, inner, [], .name hgap hname.2 (by rwa [String.ofList_toList]) hspace,
      List.not_mem_nil, rfl, rfl, hinner⟩
  rw [readClause_quantified htrim hbody, readClause_trim, h]

theorem Written.readClause {vs : List String} {as bs : List Literal} {text : List Char} (h : Written vs as bs text)
    (hvs : ∀ v ∈ vs, IsName v ∧ isVariableName v = true) (has : ∀ l ∈ as, l.Grammatical)
    (hfirst : ∀ l ∈ as.head?, l.positive = true) (hbs : ∀ l ∈ bs, l.Grammatical) :
    Formula.readClause text = .ok ⟨as.modifyHead Literal.complement ++ bs⟩ := by
  induction h with
  | disjunction h =>
    have hplain := plain_of_notMem (arrow_notMem hbs h) (head?_trim_ne hbs h)
    exact (readClause_plain hplain).2 (map_operands hbs h)
  | @implication as bs left right hleft hright =>
    obtain ⟨l, ls, rfl⟩ : ∃ l ls, as = l :: ls := by
      cases hleft with
      | single _ _ _ => exact ⟨_, _, rfl⟩
      | cons _ _ _ _ => exact ⟨_, _, rfl⟩
    exact readClause_implication (arrow_notMem has hleft) (arrow_notMem hbs hright) (head?_trim_ne has hleft)
      (map_operands has hleft) (hfirst l rfl) (map_operands hbs hright)
  | quantified hbefore hgap hspace hafter _ ih =>
    obtain ⟨hname, hvar⟩ := hvs _ List.mem_cons_self
    exact readClause_forall hname hvar hbefore hgap hspace hafter
      (ih (fun v hv => hvs v (List.mem_cons_of_mem _ hv)) has hfirst hbs)

/-- **Every formula of the grammar is read as it is meant**, whatever blanks are put into it: the first literal of the
antecedent is negated and all others are kept in order. The text of a clause is such a formula. -/
theorem read_written {vs : List String} {as bs : List Literal} (hvs : ∀ v ∈ vs, IsName v ∧ isVariableName v = true)
    (has : ∀ l ∈ as, l.Grammatical) (hfirst : ∀ l ∈ as.head?, l.positive = true) (hbs : ∀ l ∈ bs, l.Grammatical)
    (hne : bs ≠ []) :
    (∀ text : String, Written vs as bs text.toList → read text = .ok ⟨as.modifyHead Literal.complement ++ bs⟩) ∧
      read (Clause.text ⟨bs⟩) = .ok ⟨bs⟩ := by
  refine ⟨fun text h => h.readClause hvs has hfirst hbs, ?_⟩
  have hown : Written [] [] bs (Clause.text ⟨bs⟩).toList := .disjunction (Clause.listed_text hne)
  exact hown.readClause (by simp) (by simp) (by simp) hbs

/-- blanks around everything -/
theorem read_written_implication :
    read " ∀ x ( P( x ,A) ∨ Q() → ¬ R(x) ) " =
        .ok ⟨[⟨false, ⟨"P", [.var "x", .const "A"]⟩⟩, ⟨true, Atom.prop "Q"⟩, ⟨false, ⟨"R", [.var "x"]⟩⟩]⟩ ∧
      read "¬R(x)" = .ok ⟨[⟨false, ⟨"R", [.var "x"]⟩⟩]⟩ := by
  have hnone : Blanks [] := by decide
  have hspace : Blanks [' '] := by decide
  have hp : Literal.Written ⟨true, ⟨"P", [.var "x", .const "A"]⟩⟩ _ :=
    .positive (.applied (.cons (.name _) hspace hspace (.single (.name _) hnone hnone)))
  have hq : Literal.Written ⟨true, Atom.prop "Q"⟩ _ := .positive (.blank (by decide +kernel) hnone)
  have hr : Literal.Written ⟨false, ⟨"R", [.var "x"]⟩⟩ _ :=
    .negative hspace (.applied (.single (.name _) hnone hnone))
  have htext : Written ["x"] [⟨true, ⟨"P", [.var "x", .const "A"]⟩⟩, ⟨true, Atom.prop "Q"⟩]
      [⟨false, ⟨"R", [.var "x"]⟩⟩] _ :=
    .quantified hspace hspace hspace hspace
      (.implication (.cons hp hspace hspace (.single hq hspace hspace)) (.single hr hspace hspace))
  have hread := @read_written ["x"] [⟨true, ⟨"P", [.var "x", .const "A"]⟩⟩, ⟨true, Atom.prop "Q"⟩]
    [⟨false, ⟨"R", [.var "x"]⟩⟩] (by decide +kernel) (by decide +kernel) (by decide) (by decide +kernel) (by decide)
  have hown : Clause.text ⟨[⟨false, ⟨"R", [.var "x"]⟩⟩]⟩ = "¬R(x)" := by decide +kernel
  exact ⟨hread.1 " ∀ x ( P( x ,A) ∨ Q() → ¬ R(x) ) " htext, hown ▸ hread.2⟩

end Formula

/-! ## Implications between two literals -/

/-- what a literal becomes as an antecedent: its complement, or, if it is negative already, the negation of the proposition
that its text names -/
def Literal.antecedent (l : Literal) : Literal := if l.positive then l.complement else ⟨false, Atom.prop l.text⟩

/-- the two differ in sign unless the literal is positive -/
theorem Literal.antecedent_eq_complement {l : Literal} : l.antecedent = l.complement ↔ l.positive = true := by
  obtain ⟨positive, a⟩ := l
  cases positive with
  | true => simp [antecedent]
  | false => simp [antecedent, complement]

namespace Formula

variable {l m : Literal}

/-- the `¬` of an implication in front of the text of a literal -/
theorem readLiteral_antecedent (hl : l.Grammatical) : readLiteral ('¬' :: l.text.toList) = .ok l.antecedent := by
  have htrim := hl.tidy.trim_text
  unfold Literal.antecedent
  by_cases hpos : l.positive = true
  · rw [if_pos hpos]
    exact readLiteral_not (hl.tidy.readLiteral l.written_text) hpos htrim
  · have htext : l.text.toList = '¬' :: l.atom.text.toList := by rw [Literal.toList_text, if_neg hpos]
    rw [htext] at htrim
    rw [if_neg hpos, htext, readLiteral_not_not htrim, ← htext, String.ofList_toList]

/-- an implication between two literals denotes the clause of what the first becomes and the second -/
theorem readClause_literals (hl : l.Grammatical) (hm : m.Grammatical) :
    readClause (l.text.toList ++ [' '] ++ '→' :: ([' '] ++ m.text.toList)) = .ok ⟨[l.antecedent, m]⟩ := by
  have hnone : Blanks [] := by decide
  have hspace : Blanks [' '] := by decide
  have hleft : Listed '∨' Literal.Written [l] (l.text.toList ++ [' ']) := .single l.written_text hnone hspace
  have hright : Listed '∨' Literal.Written [m] ([' '] ++ m.text.toList ++ []) := .single m.written_text hspace hnone
  rw [List.append_nil] at hright
  have hor : '∨' ∉ l.text.toList :=
    l.written_text.notMem (by decide) hl.tidy.atom.or fun t ht => (hl.tidy.atom.args t ht).or
  have hparts : operands (l.text.toList ++ [' ']) = [l.text.toList] := by
    rw [operands_append_blanks hspace, operands_of_notMem hor, hl.tidy.trim_text]
  have hls : ∀ k ∈ [l], k.Grammatical := List.forall_mem_singleton.2 hl
  have hms : ∀ k ∈ [m], k.Grammatical := List.forall_mem_singleton.2 hm
  have hrest : ([] : List (List Char)).map readLiteral = ([] : List Literal).map .ok := rfl
  exact readClause_arrow (arrow_notMem hls hleft) (arrow_notMem hms hright) (head?_trim_ne hls hleft) hparts
    (l.written_text.ne_nil hl.tidy) (readLiteral_antecedent hl) hrest (map_operands hms hright)

/-- **Implications between literals.** `L → M` is read as the clause of the complement of `L` and of `M` exactly when `L` is
positive. A negative `L` is not turned: a second `¬` is no sign, so the antecedent becomes the negation of a proposition
that has the text of `L` for its name. -/
theorem read_implication (l m : Literal) (hl : l.Grammatical) (hm : m.Grammatical) :
    read (l.text ++ " → " ++ m.text) = .ok ⟨[l.antecedent, m]⟩ ∧
      (read (l.text ++ " → " ++ m.text) = .ok ⟨[l.complement, m]⟩ ↔ l.positive = true) := by
  have hread : read (l.text ++ " → " ++ m.text) = .ok ⟨[l.antecedent, m]⟩ := by
    have htext : (l.text ++ " → " ++ m.text).toList = l.text.toList ++ [' '] ++ '→' :: ([' '] ++ m.text.toList) := by
      simp
    rw [read, htext, readClause_literals hl hm]
  refine ⟨hread, ?_⟩
  rw [hread]
  simp [Literal.antecedent_eq_complement]

/-- `P(x, A) → ¬Q(x)` is read as it is meant, and `¬P(x, A) → Q(x)` is not -/
theorem read_implication_signs :
    read "P(x, A) → ¬Q(x)" = .ok ⟨[⟨false, "P", [.var "x", .const "A"]⟩, ⟨false, "Q", [.var "x"]⟩]⟩ ∧
      read "¬P(x, A) → Q(x)" = .ok ⟨[⟨false, "¬P(x, A)", []⟩, ⟨true, "Q", [.var "x"]⟩]⟩ := by
  have hpos := read_implication ⟨true, "P", [.var "x", .const "A"]⟩ ⟨false, "Q", [.var "x"]⟩ (by decide +kernel)
    (by decide +kernel)
  have hneg := read_implication ⟨false, "P", [.var "x", .const "A"]⟩ ⟨true, "Q", [.var "x"]⟩ (by decide +kernel)
    (by decide +kernel)
  have htext : Literal.text ⟨true, "P", [.var "x", .const "A"]⟩ ++ " → " ++ Literal.text ⟨false, "Q", [.var "x"]⟩ =
      "P(x, A) → ¬Q(x)" := by decide +kernel
  have htext' : Literal.text ⟨false, "P", [.var "x", .const "A"]⟩ ++ " → " ++ Literal.text ⟨true, "Q", [.var "x"]⟩ =
      "¬P(x, A) → Q(x)" := by decide +kernel
  have hname : Literal.antecedent ⟨false, "P", [.var "x", .const "A"]⟩ = ⟨false, "¬P(x, A)", []⟩ := by decide +kernel
  rw [htext] at hpos
  rw [htext', hname] at hneg
  exact ⟨hpos.1, hneg.1⟩

/-- The antecedent `¬P` is not turned: `¬P → Q` is not the clause `P ∨ Q`. -/
theorem negated_antecedent_kept :
    let l : Literal := ⟨false, "P", []⟩
    let m : Literal := ⟨true, "Q", []⟩
    l.Grammatical ∧ m.Grammatical ∧ l.text ++ " → " ++ m.text = "¬P → Q" ∧
      read "¬P → Q" = .ok ⟨[⟨false, "¬P", []⟩, m]⟩ ∧ read "¬P → Q" ≠ .ok ⟨[l.complement, m]⟩ := by
  intro l m
  have hl : l.Grammatical := by decide +kernel
  have hm : m.Grammatical := by decide +kernel
  have htext : l.text.toList ++ [' '] ++ '→' :: ([' '] ++ m.text.toList) = "¬P → Q".toList := by decide +kernel
  have hname : l.antecedent = ⟨false, "¬P", []⟩ := by decide +kernel
  have hread : read "¬P → Q" = .ok ⟨[⟨false, "¬P", []⟩, m]⟩ := by
    rw [read, ← htext, readClause_literals hl hm, hname]
  refine ⟨hl, hm, by decide +kernel, hread, ?_⟩
  rw [hread]
  decide

end Formula

end Refutation
