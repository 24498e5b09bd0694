/-
The ways to write a clause.

An atom is written as its name, with its arguments in brackets if it has any; blanks may stand around each argument and
after a `¬`. A clause is written as the list of its literals with `∨` between any two and blanks around each. Its own text
is one of these ways (`Clause.listed_text`). Reading gives the clause back from every one of them
(`map_readLiteral_operands`), provided that the literals are `Tidy`: readable, with no blank at the end of a name, and not
with an empty name as the only argument, which would be read as no argument at all.
-/
import Refutation.Proofs.Shapes
import Refutation.Proofs.WellFormed

namespace Refutation

open Text

/-- an argument is written as its name -/
inductive Term.Written : Term → List Char → Prop where
  | name (t : Term) : Term.Written t t.name.toList

/-- the ways to write an atom; empty brackets may follow a plain name -/
inductive Atom.Written : Atom → List Char → Prop where
  | bare {name : String} : Atom.Written (Atom.prop name) name.toList
  | blank {name : String} {inner : List Char} (hname : IsName name) (hinner : Blanks inner) :
      Atom.Written (Atom.prop name) (name.toList ++ '(' :: (inner ++ [')']))
  | applied {a : Atom} {inner : List Char} (hargs : Listed ',' Term.Written a.args inner) :
      Atom.Written a (a.predicate.toList ++ '(' :: (inner ++ [')']))

/-- the ways to write a literal -/
inductive Literal.Written : Literal → List Char → Prop where
  | positive {a : Atom} {text : List Char} (h : a.Written text) : Literal.Written ⟨true, a⟩ text
  | negative {a : Atom} {gap text : List Char} (hgap : Blanks gap) (h : a.Written text) :
      Literal.Written ⟨false, a⟩ ('¬' :: (gap ++ text))

/-- the atom is read back from whatever way it is written in -/
structure Atom.Tidy (a : Atom) : Prop extends Atom.Readable a where
  trimmed : trim a.predicate.toList = a.predicate.toList
  args_trimmed : ∀ t ∈ a.args, trim t.name.toList = t.name.toList
  args_ne : a.args.map (fun t => t.name.toList) ≠ [[]]

/-- the literal is read back from whatever way it is written in -/
structure Literal.Tidy (l : Literal) : Prop where
  atom : l.atom.Tidy
  sign : l.positive = true → l.atom.predicate.toList.head? ≠ some '¬'

/-! ## Reading atoms -/

namespace Atom

variable {a : Atom} {text inner : List Char}

/-- arguments in brackets are read back -/
theorem Tidy.readArgs (ha : a.Tidy) (h : Listed ',' Term.Written a.args inner) :
    Formula.readArgs inner = a.args := by
  have hsplit : (inner.splitOn ',').map trim = a.args.map fun t => t.name.toList := by
    refine h.map_splitOn (f := id) (by decide) ?_
    rintro t ht _ ⟨⟩
    exact ⟨(ha.args t ht).comma, ha.args_trimmed t ht⟩
  have hne : trim inner ≠ [] := by
    intro hblank
    have hcomma : ',' ∉ inner := (trim_eq_nil.1 hblank).mark_notMem (by decide)
    rw [List.splitOn_eq_singleton hcomma, List.map_singleton, hblank] at hsplit
    exact ha.args_ne hsplit.symm
  rw [Formula.readArgs, if_neg (by simpa using hne)]
  calc (inner.splitOn ',').map (fun arg => Term.ofName (String.ofList (trim arg)))
      = ((inner.splitOn ',').map trim).map (fun name => Term.ofName (String.ofList name)) := by
        rw [List.map_map]
        rfl
    _ = a.args.map fun t => Term.ofName t.name := by
        rw [hsplit, List.map_map]
        simp [Function.comp_def]
    _ = a.args := by
        conv_rhs => rw [← List.map_id a.args]
        exact List.map_congr_left fun t ht => (ha.args t ht).kind

theorem args_notMem {mark : Char} (h : Listed ',' Term.Written a.args inner) (hmark : mark ∈ marks)
    (hcomma : mark ≠ ',') (hargs : ∀ t ∈ a.args, mark ∉ t.name.toList) : mark ∉ inner := by
  refine h.notMem hcomma hmark ?_
  rintro t ht _ ⟨⟩
  exact hargs t ht

/-- **Reading gives the atom back** from every way to write it. -/
theorem Tidy.readAtom (ha : a.Tidy) (h : a.Written text) : Formula.readAtom text = a := by
  cases h with
  | bare => exact ha.bare rfl
  | blank hname hinner =>
    have hread := Formula.readAtom_brackets hname.1 hname.2 (hinner.mark_notMem (by decide)) []
    rw [hread, Formula.readArgs, if_pos (by simp [trim_eq_nil.2 hinner]), String.ofList_toList]
    rfl
  | applied hargs =>
    have hsome : a.args ≠ [] := by
      intro hnil
      rw [hnil] at hargs
      cases hargs
    have hbracket : ')' ∉ _ := args_notMem hargs (by decide) (by decide) fun t ht => (ha.args t ht).bracket
    rw [Formula.readAtom_brackets ha.nonempty (ha.name hsome) hbracket [], ha.readArgs hargs, String.ofList_toList]

theorem Written.head? (ha : a.Readable) (h : a.Written text) : text.head? = a.predicate.toList.head? := by
  obtain ⟨c, name, hname⟩ := List.exists_cons_of_ne_nil ha.nonempty
  cases h with
  | bare => rfl
  | blank _ _ =>
    simp only [prop] at hname ⊢
    rw [hname]
    rfl
  | applied _ =>
    rw [hname]
    rfl

theorem Written.ne_nil (ha : a.Readable) (h : a.Written text) : text ≠ [] := by
  rintro rfl
  exact ha.nonempty (List.head?_eq_none_iff.1 (h.head? ha).symm)

/-- neither end of an atom in text is blank -/
theorem Tidy.trim_written (ha : a.Tidy) (h : a.Written text) : trim text = text := by
  refine trim_eq_self.2 ⟨?_, ?_⟩
  · rw [h.head? ha.toReadable]
    exact (trim_eq_self.1 ha.trimmed).1
  · have hclose : ∀ name inner : List Char, ∀ c ∈ (name ++ '(' :: (inner ++ [')'])).getLast?, isBlank c = false := by
      intro name inner
      rw [← List.cons_append, ← List.append_assoc, List.getLast?_concat]
      simpa using isBlank_of_mark (c := ')') (by decide)
    cases h with
    | bare => exact (trim_eq_self.1 ha.trimmed).2
    | blank _ _ => exact hclose _ _
    | applied _ => exact hclose _ _

/-- a mark other than brackets and commas is in the text only if it is in a name -/
theorem Written.notMem {mark : Char} (h : a.Written text) (hmark : mark ∈ ['∨', '→'])
    (hname : mark ∉ a.predicate.toList) (hargs : ∀ t ∈ a.args, mark ∉ t.name.toList) : mark ∉ text := by
  have hmarks : mark ∈ marks ∧ mark ≠ '(' ∧ mark ≠ ')' ∧ mark ≠ ',' := by
    rcases List.mem_pair.1 hmark with rfl | rfl <;> decide
  obtain ⟨hmarks, hopen, hclose, hcomma⟩ := hmarks
  cases h with
  | bare => exact hname
  | blank _ hinner =>
    have hinner := hinner.mark_notMem hmarks
    simp only [prop] at hname
    simp [hname, hopen, hinner, hclose]
  | applied hlisted =>
    have hinner := args_notMem hlisted hmarks hcomma hargs
    simp [hname, hopen, hinner, hclose]

/-- the text of an atom is a way to write it -/
theorem written_text (a : Atom) : a.Written a.text.toList := by
  rw [toList_text]
  split_ifs with hargs
  · obtain ⟨predicate, args⟩ := a
    obtain rfl : args = [] := hargs
    exact .bare
  · have hnone : Blanks [] := by decide
    have hspace : Blanks [' '] := by decide
    exact .applied (Listed.intercalate hnone hspace (fun t _ => .name t) hargs)

end Atom

/-! ## Reading literals -/

namespace Literal

variable {l : Literal} {text : List Char}

theorem Written.ne_nil (hl : l.Tidy) (h : l.Written text) : text ≠ [] := by
  cases h with
  | positive h => exact h.ne_nil hl.atom.toReadable
  | negative _ _ => simp

/-- **Reading gives the literal back** from every way to write it. -/
theorem Tidy.readLiteral (hl : l.Tidy) (h : l.Written text) : Formula.readLiteral text = .ok l := by
  cases h with
  | positive h =>
    have htrim : trim text = text := hl.atom.trim_written h
    have hhead := h.head? hl.atom.toReadable
    refine Formula.readLiteral_positive.2 ⟨?_, ?_, ?_⟩
    · rw [htrim]
      exact h.ne_nil hl.atom.toReadable
    · rw [htrim, hhead]
      exact hl.sign rfl
    · rw [htrim, hl.atom.readAtom h]
  | @negative a gap body hgap h =>
    have hbody : trim (trimEnd (gap ++ body)) = body := by
      rw [trim_trimEnd, trim_blanks_append hgap, hl.atom.trim_written h]
    refine Formula.readLiteral_negative.2 ⟨trimEnd (gap ++ body), ?_, ?_, ?_⟩
    · exact trim_append_cons (isBlank_of_mark (by decide)) [] (gap ++ body)
    · rw [hbody]
      exact h.ne_nil hl.atom.toReadable
    · rw [hbody, hl.atom.readAtom h]

theorem Written.notMem {mark : Char} (h : l.Written text) (hmark : mark ∈ ['∨', '→'])
    (hname : mark ∉ l.atom.predicate.toList) (hargs : ∀ t ∈ l.atom.args, mark ∉ t.name.toList) : mark ∉ text := by
  cases h with
  | positive h => exact h.notMem hmark hname hargs
  | negative hgap h =>
    have htext := h.notMem hmark hname hargs
    have hmarks : mark ∈ marks ∧ mark ≠ '¬' := by
      rcases List.mem_pair.1 hmark with rfl | rfl <;> decide
    simp [htext, hmarks.2, hgap.mark_notMem hmarks.1]

/-- the text of a literal is a way to write it -/
theorem written_text (l : Literal) : l.Written l.text.toList := by
  obtain ⟨positive, a⟩ := l
  rw [toList_text]
  cases positive with
  | true => exact .positive a.written_text
  | false =>
    have hnone : Blanks [] := by decide
    exact .negative hnone a.written_text

theorem Tidy.trim_text (hl : l.Tidy) : trim l.text.toList = l.text.toList := by
  have hatom := hl.atom.trim_written l.atom.written_text
  rw [toList_text]
  split_ifs
  · exact hatom
  · exact trim_cons (isBlank_of_mark (by decide)) hatom

end Literal

/-! ## Clauses in text -/

/-- the text of a literal starts as the text that it was read from -/
theorem Formula.head?_text {p : List Char} {l : Literal} (hor : '∨' ∉ p) (h : Formula.readLiteral p = .ok l) :
    l.text.toList.head? = (trim p).head? := by
  have hread := Formula.readLiteral_readable hor h
  obtain ⟨positive, a⟩ := l
  rw [Literal.toList_text]
  cases positive with
  | true =>
    obtain ⟨-, -, rfl⟩ := Formula.readLiteral_positive.1 h
    rw [if_pos rfl, hread.atom.head?_text, Formula.head?_readAtom]
  | false =>
    obtain ⟨rest, hrest, -, -⟩ := Formula.readLiteral_negative.1 h
    rw [if_neg (by simp), hrest]
    rfl

/-- **Reading gives the literals back** from every way to list them. -/
theorem map_readLiteral_operands {ls : List Literal} {text : List Char} (hls : ∀ l ∈ ls, l.Tidy)
    (h : Listed '∨' Literal.Written ls text) : (Formula.operands text).map Formula.readLiteral = ls.map .ok := by
  have hread := h.map_splitOn (f := Formula.readLiteral) (g := Except.ok) (by decide) ?_
  · rw [Formula.operands, List.map_map]
    exact hread
  · intro l hl t ht
    refine ⟨ht.notMem (by decide) (hls l hl).atom.or fun u hu => ((hls l hl).atom.args u hu).or, ?_⟩
    rw [Formula.readLiteral_trim, (hls l hl).readLiteral ht]

/-- the text of a clause is a way to write it -/
theorem Clause.listed_text {c : Clause} (h : c.literals ≠ []) : Listed '∨' Literal.Written c.literals c.text.toList := by
  have hspace : Blanks [' '] := by decide
  rw [toList_text h]
  exact Listed.intercalate hspace hspace (fun l _ => l.written_text) h

end Refutation
