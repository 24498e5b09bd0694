/-
Reading a clause back from its own text.

What is read from a text is tidy (`readLiteral_tidy`), so each literal is read back from its text. What has to be shown is
that the text of the clause is plain again. It holds no arrow unless the text that was read did, since its characters are
characters of that text, commas and blanks apart (`notMem_text`). If the text that was read started with a `∀` that
quantifies nothing, then its first operand is a proposition named by the operand itself, so the text of the clause starts
with the same operand; and whether a text is quantified depends on its first operand and on whether a bracket follows
(`exists_quantifiedBody_append`), while no bracket comes into the text of the clause from nowhere.
-/
import Refutation.Proofs.Written

namespace Refutation.Formula

open Text

/-! ## What is read is tidy -/

theorem names_readArgs {cs : List Char} (h : trim cs ≠ []) :
    (readArgs cs).map (fun t => t.name.toList) = (cs.splitOn ',').map trim := by
  rw [readArgs, if_neg (by simpa using h), List.map_map]
  simp [Function.comp_def, Term.name_ofName]

/-- the names of arguments are trimmed, and a blank text has no arguments rather than one with an empty name -/
theorem readArgs_tidy (cs : List Char) :
    (∀ t ∈ readArgs cs, trim t.name.toList = t.name.toList) ∧ (readArgs cs).map (fun t => t.name.toList) ≠ [[]] := by
  by_cases hblank : trim cs = []
  · simp [readArgs, hblank]
  · refine ⟨fun t ht => ?_, fun hone => ?_⟩
    · have hname : t.name.toList ∈ (cs.splitOn ',').map trim := by
        rw [← names_readArgs hblank]
        exact List.mem_map_of_mem ht
      obtain ⟨piece, -, hpiece⟩ := List.mem_map.1 hname
      rw [← hpiece, trim_trim]
    · -- a single piece is the whole text
      rw [names_readArgs hblank] at hone
      obtain ⟨piece, hsplit, hpiece⟩ := List.map_eq_singleton_iff.1 hone
      have hwhole : [','].intercalate (cs.splitOn ',') = cs := List.intercalate_splitOn ','
      rw [hsplit, List.intercalate_singleton] at hwhole
      exact hblank (hwhole ▸ hpiece)

theorem readAtom_tidy {body : List Char} (htrim : trim body = body) (hne : body ≠ []) (hor : '∨' ∉ body) :
    (readAtom body).Tidy := by
  have hread := readAtom_readable hne hor
  rcases readAtom_cases body with h | ⟨name, args, rest, -, hname, -, -, h⟩
  · rw [h] at hread ⊢
    exact ⟨hread, by simpa [Atom.prop] using htrim, by simp [Atom.prop], by simp [Atom.prop]⟩
  · rw [h] at hread ⊢
    obtain ⟨htrimmed, hargs⟩ := readArgs_tidy args
    exact ⟨hread, by simpa using trim_name hname, htrimmed, hargs⟩

theorem readLiteral_tidy {p : List Char} {l : Literal} (hor : '∨' ∉ p) (h : readLiteral p = .ok l) : l.Tidy := by
  have hsign := (readLiteral_readable hor h).sign
  obtain ⟨positive, a⟩ := l
  refine ⟨?_, hsign⟩
  cases positive with
  | true =>
    obtain ⟨hne, -, rfl⟩ := readLiteral_positive.1 h
    exact readAtom_tidy (trim_trim p) hne fun hm => hor ((trim_sublist p).subset hm)
  | false =>
    obtain ⟨rest, hrest, hne, rfl⟩ := readLiteral_negative.1 h
    refine readAtom_tidy (trim_trim rest) hne fun hm => hor ((trim_sublist p).subset ?_)
    rw [hrest]
    exact List.mem_cons_of_mem _ ((trim_sublist rest).subset hm)

/-! ## The characters of a text that was read -/

section Characters

variable {mark : Char}

theorem notMem_text_readAtom {body : List Char} (hmark : mark ∉ [',', ' ']) (h : mark ∉ body) :
    mark ∉ (readAtom body).text.toList := by
  rcases readAtom_cases body with hatom | ⟨name, args, rest, -, -, -, rfl, hatom⟩
  · have htext : (Atom.prop (String.ofList body)).text = String.ofList body := rfl
    rw [hatom, htext, String.toList_ofList]
    exact h
  · rw [hatom, Atom.toList_text, String.toList_ofList]
    simp only [List.mem_append, List.mem_cons, not_or] at h
    obtain ⟨hname, hopen, hargs, hclose, -⟩ := h
    split_ifs
    · exact hname
    · have hlist : mark ∉ [',', ' '].intercalate ((readArgs args).map fun t => t.name.toList) := by
        refine notMem_intercalate hmark fun text htext hm => ?_
        obtain ⟨t, ht, rfl⟩ := List.mem_map.1 htext
        exact hargs ((of_mem_readArgs ht).2.1 hm)
      simp [hname, hopen, hlist, hclose]

theorem notMem_text {p : List Char} {l : Literal} (hmark : mark ∉ [',', ' ']) (hp : mark ∉ p) (h : readLiteral p = .ok l) :
    mark ∉ l.text.toList := by
  have htrim : mark ∉ trim p := fun hm => hp ((trim_sublist p).subset hm)
  obtain ⟨positive, a⟩ := l
  rw [Literal.toList_text]
  cases positive with
  | true =>
    obtain ⟨-, -, rfl⟩ := readLiteral_positive.1 h
    exact notMem_text_readAtom hmark htrim
  | false =>
    obtain ⟨rest, hrest, -, rfl⟩ := readLiteral_negative.1 h
    rw [hrest, List.mem_cons, not_or] at htrim
    have hatom := notMem_text_readAtom hmark fun hm => htrim.2 ((trim_sublist rest).subset hm)
    simp [htrim.1, hatom]

/-- after a `∀` that quantifies nothing the whole operand is a name -/
theorem text_of_quantifier {q : List Char} {l : Literal} (htrim : trim ('∀' :: q) = '∀' :: q)
    (h : readLiteral ('∀' :: q) = .ok l) : l.text.toList = '∀' :: q := by
  have hname : isNameChar '∀' = false := isNameChar_of_mark (by decide)
  obtain ⟨positive, a⟩ := l
  cases positive with
  | true =>
    obtain ⟨-, -, rfl⟩ := readLiteral_positive.1 h
    rw [htrim]
    rcases readAtom_cases ('∀' :: q) with hatom | ⟨name, args, rest, hne, hall, -, htext, -⟩
    · rw [hatom, Literal.toList_text, if_pos rfl]
      exact String.toList_ofList
    · obtain ⟨c, name, rfl⟩ := List.exists_cons_of_ne_nil hne
      obtain ⟨rfl, -⟩ := List.cons.inj htext
      rw [hall _ List.mem_cons_self] at hname
      cases hname
  | false =>
    obtain ⟨rest, hrest, -, -⟩ := readLiteral_negative.1 h
    rw [htrim] at hrest
    cases (List.cons.inj hrest).1

end Characters

/-! ## Quantifiers before operands -/

/-- what may follow an operand: blanks, then nothing or further operands -/
inductive Continues : List Char → Prop where
  | none : Continues []
  | or (rest : List Char) : Continues ('∨' :: rest)
  | blank {c : Char} {cs : List Char} (hc : isBlank c = true) (h : Continues cs) : Continues (c :: cs)

namespace Continues

variable {bracket : Char} {cs rest : List Char}

theorem append_blanks {gap : List Char} (hgap : Blanks gap) (h : Continues cs) : Continues (gap ++ cs) := by
  induction gap with
  | nil => exact h
  | cons c gap ih =>
    exact .blank (hgap c List.mem_cons_self) (ih fun d hd => hgap d (List.mem_cons_of_mem _ hd))

/-- no bracket comes before the first `∨` -/
theorem not_bracket (hbracket : bracket ∈ ['(', ')']) (hcs : '∨' ∉ cs) : ¬ Continues (cs ++ bracket :: rest) := by
  have hplain : isBlank bracket = false := by
    rcases List.mem_pair.1 hbracket with rfl | rfl <;> exact isBlank_of_mark (by decide)
  intro h
  induction cs with
  | nil =>
    cases h with
    | or rest => simp at hbracket
    | blank hc _ =>
      rw [hplain] at hc
      cases hc
  | cons c cs ih =>
    cases h with
    | or _ => exact hcs List.mem_cons_self
    | blank _ h => exact ih (fun hm => hcs (List.mem_cons_of_mem _ hm)) h

/-- a bracket after the first `∨` closes what is not blank -/
theorem exists_close (h : Continues cs) (hclose : ')' ∈ cs) : ∃ body after, ¬ Blanks body ∧ cs = body ++ ')' :: after := by
  obtain ⟨body, after, rfl, -⟩ := List.eq_append_cons_of_mem hclose
  refine ⟨body, after, fun hblank => ?_, rfl⟩
  exact not_bracket (by decide) (hblank.mark_notMem (by decide)) h

/-- a bracket before what follows an operand belongs to the operand -/
theorem exists_tail {ys tail more : List Char} (hys : Continues ys) (hbracket : bracket ∈ ['(', ')'])
    (h : bracket :: tail = more ++ ys) : ∃ inner, more = bracket :: inner ∧ inner ++ ys = tail := by
  cases more with
  | nil =>
    have hfirst : Continues ([] ++ bracket :: tail) := by
      rw [h]
      exact hys
    exact absurd hfirst (not_bracket hbracket List.not_mem_nil)
  | cons c inner =>
    obtain ⟨rfl, rfl⟩ := List.cons.inj h
    exact ⟨inner, rfl, rfl⟩

/-- a bracket before any `∨` belongs to the first operand -/
theorem exists_bracket {q ys start tail : List Char} (hys : Continues ys) (hbracket : bracket ∈ ['(', ')'])
    (hstart : '∨' ∉ start) (h : q ++ ys = start ++ bracket :: tail) :
    ∃ inner, q = start ++ bracket :: inner ∧ inner ++ ys = tail := by
  rcases List.append_eq_append_iff.1 h with ⟨more, rfl, rfl⟩ | ⟨more, rfl, htail⟩
  · have hmore : '∨' ∉ more := fun hm => hstart (List.mem_append_right _ hm)
    exact absurd hys (not_bracket hbracket hmore)
  · obtain ⟨inner, rfl, hinner⟩ := hys.exists_tail hbracket htail
    exact ⟨inner, rfl, hinner⟩

end Continues

/-- **Whether a text is quantified** depends on its first operand and on whether a bracket follows it. -/
theorem exists_quantifiedBody_append {q ys : List Char} (hys : Continues ys) :
    (∃ body, quantifiedBody? (q ++ ys) = some body) ↔
      ∃ binder inner, Binder binder ∧ q = binder ++ '(' :: inner ∧
        ((∃ body after, ¬ Blanks body ∧ inner = body ++ ')' :: after) ∨ ')' ∈ ys) := by
  constructor
  · rintro ⟨body, h⟩
    obtain ⟨binder, inner, after, hbinder, -, htext, hbody, hne⟩ := quantifiedBody_eq_some.1 h
    obtain ⟨found, hq, hfound⟩ := hys.exists_bracket (by decide) hbinder.or_notMem htext
    refine ⟨binder, found, hbinder, hq, ?_⟩
    rcases List.append_eq_append_iff.1 hfound with ⟨more, rfl, rfl⟩ | ⟨more, rfl, htail⟩
    · exact Or.inr (by simp)
    · obtain ⟨rest, rfl, -⟩ := hys.exists_tail (by decide) htail
      exact Or.inl ⟨inner, rest, fun hblank => hne (hbody ▸ trim_eq_nil.2 hblank), rfl⟩
  · rintro ⟨binder, inner, hbinder, rfl, ⟨body, after, hbody, rfl⟩ | hclose⟩
    · simpa using hbinder.exists_quantifiedBody hbody (after ++ ys)
    · obtain ⟨body, after, hbody, rfl⟩ := hys.exists_close hclose
      have hlonger : ¬ Blanks (inner ++ body) := fun h => hbody fun c hc => h c (List.mem_append_right _ hc)
      simpa using hbinder.exists_quantifiedBody hlonger after

/-! ## The text of a clause that was read -/

section Reread

variable {t : List Char} {ls : List Literal}

theorem exists_operand (h : (operands t).map readLiteral = ls.map .ok) {l : Literal} (hl : l ∈ ls) :
    ∃ p ∈ operands t, readLiteral p = .ok l := by
  have hmem : Except.ok l ∈ (operands t).map readLiteral := h ▸ List.mem_map_of_mem hl
  exact List.mem_map.1 hmem

theorem tidy_of_operands (h : (operands t).map readLiteral = ls.map .ok) {l : Literal} (hl : l ∈ ls) : l.Tidy := by
  obtain ⟨p, hp, hread⟩ := exists_operand h hl
  exact readLiteral_tidy (or_notMem_operand hp).1 hread

/-- the texts of literals hold no marks but those of the text that they were read from -/
theorem notMem_intercalate_text {mark : Char} (h : (operands t).map readLiteral = ls.map .ok)
    (hmark : mark ∉ [',', ' ', '∨']) (ht : mark ∉ t) :
    mark ∉ [' ', '∨', ' '].intercalate (ls.map fun l => l.text.toList) := by
  simp only [List.mem_cons, not_or] at hmark
  refine notMem_intercalate (by simp [hmark]) fun text htext => ?_
  obtain ⟨l, hl, rfl⟩ := List.mem_map.1 htext
  obtain ⟨p, hp, hread⟩ := exists_operand h hl
  exact notMem_text (by simp [hmark]) (fun hm => ht ((or_notMem_operand hp).2 hm)) hread

/-- after the first literal the text of a clause goes on as the text that it was read from did, without new brackets -/
theorem exists_continuation {p : List Char} {ps : List (List Char)} {l : Literal} (htrim : trim t = t)
    (hparts : operands t = p :: ps) (h : ps.map readLiteral = ls.map .ok) :
    ∃ xs ys, t = p ++ xs ∧ [' ', '∨', ' '].intercalate ((l :: ls).map fun l => l.text.toList) = l.text.toList ++ ys ∧
      Continues xs ∧ Continues ys ∧ (')' ∈ ys → ')' ∈ xs) := by
  obtain ⟨after, tail, hafter, rfl, ⟨rfl, rfl⟩ | ⟨rest, rfl, rfl⟩⟩ := operands_eq_cons htrim hparts
  · obtain rfl : ls = [] := by simpa using h.symm
    exact ⟨after ++ [], [], by simp, by simp, .append_blanks hafter .none, .none, by simp⟩
  · obtain ⟨m, ms, rfl⟩ : ∃ m ms, ls = m :: ms := by
      cases ls with
      | nil => simp [operands_ne_nil] at h
      | cons m ms => exact ⟨m, ms, rfl⟩
    refine ⟨after ++ '∨' :: rest, [' '] ++ '∨' :: ' ' :: [' ', '∨', ' '].intercalate ((m :: ms).map fun l => l.text.toList),
      by simp, by simp, .append_blanks hafter (.or _), .append_blanks (by decide) (.or _), fun hclose => ?_⟩
    by_contra hnone
    simp only [List.mem_append, List.mem_cons, not_or] at hnone
    have hlater := notMem_intercalate_text h (by decide) hnone.2.2
    simp_all

/-- **The text of a clause that was read is plain.** -/
theorem Plain.text {c : Clause} (htrim : trim t = t) (ht : Plain t)
    (h : (operands t).map readLiteral = c.literals.map .ok) (hne : c.literals ≠ []) : Plain c.text.toList := by
  obtain ⟨p, ps, hparts⟩ := List.exists_cons_of_ne_nil (operands_ne_nil t)
  obtain ⟨l, ls, hliterals⟩ := List.exists_cons_of_ne_nil hne
  have hmem : p ∈ operands t := hparts ▸ List.mem_cons_self
  have hp : p ≠ [] := operand_ne_nil h hmem
  have hptrim : trim p = p := trim_of_mem_operands hmem
  have harrow : '→' ∉ t → '→' ∉ c.text.toList := by
    rw [Clause.toList_text hne]
    exact notMem_intercalate_text h (by decide)
  rw [hparts, hliterals] at h
  obtain ⟨hfirst, hrest⟩ := List.cons.inj h
  obtain ⟨xs, ys, hxs, hys, hcx, hcy, hclose⟩ := exists_continuation (l := l) htrim hparts hrest
  have htext : c.text.toList = l.text.toList ++ ys := by rw [Clause.toList_text hne, hliterals, hys]
  have hhead : c.text.toList.head? = t.head? := by
    have hl : l.text.toList ≠ [] := l.written_text.ne_nil (readLiteral_tidy (or_notMem_operand hmem).1 hfirst)
    rw [htext, List.head?_append_of_ne_nil _ hl, head?_text (or_notMem_operand hmem).1 hfirst, hptrim,
      head?_of_operands htrim hparts hp]
  refine ⟨fun rest hrest => ?_, fun hstart => harrow (ht.arrow (hhead ▸ hstart))⟩
  -- the first operand starts with the same `∀`, and is a name as a whole
  obtain ⟨q, rfl⟩ : ∃ q, p = '∀' :: q := by
    rw [hrest, head?_of_operands htrim hparts hp] at hhead
    exact List.head?_eq_some_iff.1 hhead.symm
  rw [text_of_quantifier hptrim hfirst, hrest, List.cons_append] at htext
  obtain rfl : rest = q ++ ys := List.tail_eq_of_cons_eq htext
  by_contra hsome
  obtain ⟨binder, inner, hbinder, hq, hbracket⟩ :=
    (exists_quantifiedBody_append hcy).1 (Option.ne_none_iff_exists'.1 hsome)
  obtain ⟨body, hbody⟩ := (exists_quantifiedBody_append hcx).2 ⟨binder, inner, hbinder, hq, hbracket.imp id hclose⟩
  rw [ht.quantifier (q ++ xs) hxs] at hbody
  cases hbody

end Reread

/-- **Reading is stable**: whatever clause a text denotes, the clause's own text denotes it too. -/
theorem reread_text {formula : String} {c : Clause} (h : read formula = .ok c) : read c.text = .ok c := by
  obtain ⟨t, htrim, hplain, hparts⟩ := exists_plain h
  have hne : c.literals ≠ [] := (read_readable h).1
  have htidy : ∀ l ∈ c.literals, l.Tidy := fun l hl => tidy_of_operands hparts hl
  have htext : trim c.text.toList = c.text.toList := by
    rw [Clause.toList_text hne]
    refine trim_intercalate fun text htext => ?_
    obtain ⟨l, hl, rfl⟩ := List.mem_map.1 htext
    exact ⟨(htidy l hl).trim_text, l.written_text.ne_nil (htidy l hl)⟩
  have hagain : Plain (trim c.text.toList) := by
    rw [htext]
    exact hplain.text htrim hparts hne
  exact (readClause_plain hagain).2 (map_readLiteral_operands htidy (Clause.listed_text hne))

/-- an arrow in a name, and more text after an argument list -/
theorem reread_arrow :
    read "∀X (P → Q) ∨ R( a ) tail" = .ok ⟨[⟨true, Atom.prop "∀X (P → Q)"⟩, ⟨true, ⟨"R", [.var "a"]⟩⟩]⟩ ∧
      read "∀X (P → Q) ∨ R(a)" = .ok ⟨[⟨true, Atom.prop "∀X (P → Q)"⟩, ⟨true, ⟨"R", [.var "a"]⟩⟩]⟩ := by
  have hread : read "∀X (P → Q) ∨ R( a ) tail" =
      .ok ⟨[⟨true, Atom.prop "∀X (P → Q)"⟩, ⟨true, ⟨"R", [.var "a"]⟩⟩]⟩ := by decide +kernel
  have htext : Clause.text ⟨[⟨true, Atom.prop "∀X (P → Q)"⟩, ⟨true, ⟨"R", [.var "a"]⟩⟩]⟩ = "∀X (P → Q) ∨ R(a)" := by
    decide +kernel
  exact ⟨hread, htext ▸ reread_text hread⟩

end Refutation.Formula
