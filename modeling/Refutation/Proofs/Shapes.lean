/-
What reading does with a text, by its shape.

A quantifier is recognised by what stands around it (`quantifiedBody_eq_some`), and its body is read in its place. A text
that is neither quantified nor an implication is `Plain`: it is cut at every `∨` into operands, and it denotes the clause
of its operands (`readClause_plain`). An implication is read as the plain text that has the operands of both sides,
the first one after a `¬` (`readClause_arrow`); this turns a positive literal (`readClause_implication`), and makes a name
of a negative one (`readLiteral_not_not`). Whatever is read is read from some plain text in the end (`exists_plain`).
-/
import Refutation.Proofs.Readable

namespace Refutation.Formula

open Text

/-! ## Quantifiers -/

section Quantifiers

variable {cs body : List Char}

/-- the body in brackets stands between the first bracket and the last one -/
theorem bracketed_eq_some : bracketed? cs = some body ↔
    ∃ inner after, ')' ∉ after ∧ cs = '(' :: (inner ++ ')' :: after) ∧ trim inner = body ∧ body ≠ [] := by
  constructor
  · intro h
    unfold bracketed? at h
    split at h
    · rename_i text
      split at h
      · rename_i c rest heq
        obtain rfl := Option.some.inj h
        obtain ⟨inner, hinner, htrim⟩ := Option.map_eq_some_iff.1 heq
        obtain ⟨after, hafter, rfl⟩ := beforeLast_eq_some.1 hinner
        exact ⟨inner, after, hafter, rfl, htrim, by simp⟩
      · cases h
    · cases h
  · rintro ⟨inner, after, hafter, rfl, rfl, hbody⟩
    have hlast : beforeLast ')' (inner ++ ')' :: after) = some inner := beforeLast_eq_some.2 ⟨after, hafter, rfl⟩
    obtain ⟨c, rest, hc⟩ := List.exists_cons_of_ne_nil hbody
    simp only [bracketed?, hlast, Option.map_some, hc]

theorem ne_nil_of_isVariableName {name : List Char} (h : isVariableName (String.ofList name) = true) : name ≠ [] := by
  rintro rfl
  simp [isVariableName] at h

/-- a variable with blanks around it, as it stands between a `∀` and the bracket of its body -/
inductive Binder : List Char → Prop where
  | name {before name gap : List Char} (hbefore : Blanks before) (hname : ∀ c ∈ name, isNameChar c = true)
      (hvar : isVariableName (String.ofList name) = true) (hgap : Blanks gap) : Binder (before ++ name ++ gap)

namespace Binder

variable {binder : List Char}

theorem or_notMem (h : Binder binder) : '∨' ∉ binder := by
  cases h with
  | @name before name gap hbefore hname hvar hgap =>
    have hbefore : '∨' ∉ before := hbefore.mark_notMem (by decide)
    have hname : '∨' ∉ name := fun hm => by simpa [isNameChar_of_mark (c := '∨') (by decide)] using hname _ hm
    have hgap : '∨' ∉ gap := hgap.mark_notMem (by decide)
    simp [hbefore, hname, hgap]

/-- the variable starts at its first character and ends before a blank or the bracket -/
theorem quantifiedBody_eq (h : Binder binder) (rest : List Char) :
    quantifiedBody? (binder ++ '(' :: rest) = bracketed? ('(' :: rest) := by
  cases h with
  | @name before name gap hbefore hname hvar hgap =>
    have hstart : trimStart (before ++ name ++ gap ++ '(' :: rest) = name ++ (gap ++ '(' :: rest) := by
      obtain ⟨c, name, rfl⟩ := List.exists_cons_of_ne_nil (ne_nil_of_isVariableName hvar)
      have hc : isBlank c = false := isBlank_of_isNameChar (hname c List.mem_cons_self)
      rw [List.append_assoc, List.append_assoc, trimStart_pad hbefore, trimStart, List.cons_append,
        List.dropWhile_cons_of_neg (by simp [hc])]
    have hstop : ∀ c ∈ (gap ++ '(' :: rest).head?, isNameChar c = false := by
      cases gap with
      | nil => simpa using isNameChar_of_mark (c := '(') (by decide)
      | cons c gap =>
        intro d hd
        obtain rfl : c = d := by simpa using hd
        by_contra hn
        have := isBlank_of_isNameChar (by simpa using hn)
        rw [hgap c List.mem_cons_self] at this
        cases this
    have hopen : trimStart (gap ++ '(' :: rest) = '(' :: rest := by
      rw [trimStart_pad hgap, trimStart, List.dropWhile_cons_of_neg (by simp [isBlank_of_mark (c := '(') (by decide)])]
    obtain ⟨htake, hdrop⟩ := span_append hname hstop
    simp only [quantifiedBody?, hstart, htake, hdrop, hvar, if_true, hopen]

end Binder

/-- **A quantified text** is a variable and a body in brackets that is not blank, with blanks where one likes; what follows
the last bracket does not count. -/
theorem quantifiedBody_eq_some : quantifiedBody? cs = some body ↔
    ∃ binder inner after, Binder binder ∧ ')' ∉ after ∧ cs = binder ++ '(' :: (inner ++ ')' :: after) ∧
      trim inner = body ∧ body ≠ [] := by
  constructor
  · intro h
    simp only [quantifiedBody?] at h
    split_ifs at h with hvar
    obtain ⟨inner, after, hafter, htext, hbody⟩ := bracketed_eq_some.1 h
    obtain ⟨before, hbefore, hstart⟩ := exists_trimStart cs
    obtain ⟨gap, hgap, hopen⟩ := exists_trimStart ((trimStart cs).dropWhile isNameChar)
    refine ⟨before ++ (trimStart cs).takeWhile isNameChar ++ gap, inner, after,
      .name hbefore (fun _ h => List.mem_takeWhile_imp h) hvar hgap, hafter, ?_, hbody⟩
    calc cs = before ++ trimStart cs := hstart
      _ = before ++ ((trimStart cs).takeWhile isNameChar ++ (trimStart cs).dropWhile isNameChar) := by
        rw [List.takeWhile_append_dropWhile]
      _ = before ++ ((trimStart cs).takeWhile isNameChar ++ (gap ++ '(' :: (inner ++ ')' :: after))) := by
        rw [← htext, ← hopen]
      _ = before ++ (trimStart cs).takeWhile isNameChar ++ gap ++ '(' :: (inner ++ ')' :: after) := by
        simp only [List.append_assoc]
  · rintro ⟨binder, inner, after, hbinder, hafter, rfl, hbody⟩
    rw [hbinder.quantifiedBody_eq]
    exact bracketed_eq_some.2 ⟨inner, after, hafter, rfl, hbody⟩

/-- for a text to be quantified any bracket that closes a body will do -/
theorem Binder.exists_quantifiedBody {binder inner : List Char} (hbinder : Binder binder) (hinner : ¬ Blanks inner)
    (after : List Char) : ∃ body, quantifiedBody? (binder ++ '(' :: (inner ++ ')' :: after)) = some body := by
  -- the text up to the last bracket goes on from `inner`
  obtain ⟨longer, hlonger⟩ : ∃ longer, beforeLast ')' (inner ++ ')' :: after) = some longer := by simp [beforeLast]
  obtain ⟨rest, hrest, hcut⟩ := beforeLast_eq_some.1 hlonger
  have hsub : inner ⊆ longer := by
    rcases List.append_eq_append_iff.1 hcut with ⟨more, rfl, -⟩ | ⟨more, rfl, htail⟩
    · exact List.subset_append_left _ _
    · cases more with
      | nil => simp
      | cons c more =>
        obtain ⟨-, rfl⟩ := List.cons.inj htail
        exact absurd (by simp) hrest
  refine ⟨trim longer, quantifiedBody_eq_some.2 ⟨binder, longer, rest, hbinder, hrest, by rw [hcut], rfl, ?_⟩⟩
  exact fun hblank => hinner fun c hc => trim_eq_nil.1 hblank c (hsub hc)

end Quantifiers

/-! ## Operands -/

/-- the texts between the `∨`s of a text -/
def operands (cs : List Char) : List (List Char) := (cs.splitOn '∨').map trim

section Operands

variable {cs : List Char}

theorem operands_append (cs ds : List Char) : operands (cs ++ '∨' :: ds) = operands cs ++ operands ds := by
  rw [operands, List.splitOn_append_cons_self, List.map_append, operands, operands]

theorem operands_of_notMem (h : '∨' ∉ cs) : operands cs = [trim cs] := by
  rw [operands, List.splitOn_eq_singleton h, List.map_singleton]

theorem operands_blanks_append {before : List Char} (hb : Blanks before) (cs : List Char) :
    operands (before ++ cs) = operands cs := by
  have hor : '∨' ∉ before := hb.mark_notMem (by decide)
  by_cases h : '∨' ∈ cs
  · obtain ⟨xs, rest, rfl, hxs⟩ := List.eq_append_cons_of_mem h
    rw [← List.append_assoc, operands_append, operands_append, operands_of_notMem (by simp [hor, hxs]),
      operands_of_notMem hxs, trim_blanks_append hb]
  · rw [operands_of_notMem (by simp [hor, h]), operands_of_notMem h, trim_blanks_append hb]

theorem operands_append_blanks {after : List Char} (ha : Blanks after) (cs : List Char) :
    operands (cs ++ after) = operands cs := by
  have hor : '∨' ∉ after := ha.mark_notMem (by decide)
  by_cases h : '∨' ∈ cs
  · obtain ⟨xs, hlast⟩ : ∃ xs, beforeLast '∨' cs = some xs := by simp [beforeLast, h]
    obtain ⟨rest, hrest, rfl⟩ := beforeLast_eq_some.1 hlast
    have hend : operands (rest ++ after) = operands rest := by
      rw [operands_of_notMem (by simp [hor, hrest]), operands_of_notMem hrest, trim_append_blanks ha]
    rw [List.append_assoc, List.cons_append, operands_append, operands_append, hend]
  · rw [operands_of_notMem (by simp [hor, h]), operands_of_notMem h, trim_append_blanks ha]

/-- blanks around a text are not part of its operands -/
theorem operands_trim (cs : List Char) : operands (trim cs) = operands cs := by
  obtain ⟨before, after, hb, ha, hcs⟩ := exists_trim cs
  conv_rhs => rw [hcs, operands_append_blanks ha, operands_blanks_append hb]

theorem trim_of_mem_operands {p : List Char} (h : p ∈ operands cs) : trim p = p := by
  obtain ⟨piece, -, rfl⟩ := List.mem_map.1 h
  exact trim_trim piece

theorem operands_ne_nil (cs : List Char) : operands cs ≠ [] := by simp [operands, List.splitOn_ne_nil]

/-- the first operand of a trimmed text stands at its start -/
theorem operands_eq_cons {p : List Char} {ps : List (List Char)} (ht : trim cs = cs) (h : operands cs = p :: ps) :
    ∃ after tail, Blanks after ∧ cs = p ++ after ++ tail ∧
      ((tail = [] ∧ ps = []) ∨ ∃ rest, tail = '∨' :: rest ∧ ps = operands rest) := by
  -- no blank comes before the first operand, since the text starts with none
  have hstart : ∀ {xs : List Char} (tail : List Char), cs = xs ++ tail → trim xs = p →
      ∃ after, Blanks after ∧ xs = p ++ after := by
    intro xs tail hcs hxs
    obtain ⟨before, after, hb, ha, hpad⟩ := exists_trim xs
    refine ⟨after, ha, ?_⟩
    rw [hxs] at hpad
    cases before with
    | nil => simpa using hpad
    | cons b before =>
      have hhead := (trim_eq_self.1 ht).1 b (by rw [hcs, hpad]; rfl)
      rw [hb b List.mem_cons_self] at hhead
      cases hhead
  by_cases hor : '∨' ∈ cs
  · obtain ⟨xs, rest, hcs, hxs⟩ := List.eq_append_cons_of_mem hor
    rw [hcs, operands_append, operands_of_notMem hxs, List.singleton_append] at h
    obtain ⟨hp, hps⟩ := List.cons.inj h
    obtain ⟨after, ha, rfl⟩ := hstart ('∨' :: rest) hcs hp
    exact ⟨after, '∨' :: rest, ha, hcs, Or.inr ⟨rest, rfl, hps.symm⟩⟩
  · rw [operands_of_notMem hor, ht] at h
    obtain ⟨rfl, rfl⟩ := List.cons.inj h
    exact ⟨[], [], by simp [Blanks], by simp, Or.inl ⟨rfl, rfl⟩⟩

theorem head?_of_operands {p : List Char} {ps : List (List Char)} (ht : trim cs = cs) (h : operands cs = p :: ps)
    (hp : p ≠ []) : cs.head? = p.head? := by
  obtain ⟨after, tail, -, rfl, -⟩ := operands_eq_cons ht h
  obtain ⟨c, p, rfl⟩ := List.exists_cons_of_ne_nil hp
  rfl

theorem or_notMem_operand {p : List Char} (h : p ∈ operands cs) : '∨' ∉ p ∧ p ⊆ cs := by
  obtain ⟨piece, hpiece, rfl⟩ := List.mem_map.1 h
  obtain ⟨hor, hsub⟩ := of_mem_splitOn hpiece
  exact ⟨fun hm => hor ((trim_sublist piece).subset hm), fun c hc => hsub ((trim_sublist piece).subset hc)⟩

/-- a `¬` in front of a trimmed text stands in front of its first operand -/
theorem operands_not_cons {p : List Char} {ps : List (List Char)} (ht : trim cs = cs) (h : operands cs = p :: ps) :
    operands ('¬' :: cs) = ('¬' :: p) :: ps := by
  have hmem : p ∈ operands cs := h ▸ List.mem_cons_self
  obtain ⟨after, tail, ha, rfl, htail⟩ := operands_eq_cons ht h
  have hfirst : operands ('¬' :: p ++ after) = ['¬' :: p] := by
    rw [operands_append_blanks ha, operands_of_notMem (by simpa using (or_notMem_operand hmem).1),
      trim_cons (isBlank_of_mark (by decide)) (trim_of_mem_operands hmem)]
  rcases htail with ⟨rfl, rfl⟩ | ⟨rest, rfl, rfl⟩
  · rw [List.append_nil, ← List.cons_append]
    exact hfirst
  · rw [← List.cons_append, ← List.cons_append, operands_append, hfirst]
    rfl

end Operands

/-! ## One step of reading -/

/-- the clause that a text of this shape denotes -/
def readShape : Shape → Except FormulaError Clause
  | .quantified body => readClause body
  | .implication left right => readClause (implicationText left right)
  | .disjunction parts => (readLiterals parts).map Clause.mk
  | .literal text => (readLiterals [text]).map Clause.mk

theorem readClause_eq (cs : List Char) :
    readClause cs = if trim cs = [] then .error .empty else (shape (trim cs)).bind readShape := by
  rw [readClause]
  simp only [List.isEmpty_iff]
  split_ifs
  · rfl
  · split
    all_goals
      rename_i hshape
      rw [hshape]
      rfl

theorem readClause_trim (cs : List Char) : readClause (trim cs) = readClause cs := by
  rw [readClause_eq, readClause_eq, trim_trim]

theorem readClause_of_shape {cs : List Char} {found : Shape} (hne : trim cs ≠ []) (h : shape (trim cs) = .ok found) :
    readClause cs = readShape found := by
  rw [readClause_eq, if_neg hne, h]
  rfl

/-! ## Plain texts -/

/-- neither quantified nor an implication: an arrow is plain text after a `∀` that quantifies nothing -/
structure Plain (cs : List Char) : Prop where
  quantifier : ∀ rest, cs = '∀' :: rest → quantifiedBody? rest = none
  arrow : cs.head? ≠ some '∀' → '→' ∉ cs

section Plain

variable {cs : List Char} {c : Clause}

theorem Plain.shape (h : Plain cs) : shape cs = splitDisjunction cs := by
  unfold Formula.shape
  split
  · rw [h.quantifier _ rfl]
  · rename_i hstart
    rw [if_neg]
    simp only [List.contains_iff_mem]
    refine h.arrow fun hhead => ?_
    obtain ⟨rest, rfl⟩ := List.head?_eq_some_iff.1 hhead
    exact hstart rest rfl

theorem plain_of_shape {found : Shape} (h : Formula.shape cs = .ok found) (hq : ∀ body, found ≠ .quantified body)
    (hi : ∀ left right, found ≠ .implication left right) : Plain cs := by
  unfold Formula.shape at h
  split at h
  · rename_i rest
    refine ⟨fun other hother => ?_, fun hhead => absurd rfl hhead⟩
    obtain rfl : rest = other := by simpa using hother
    split at h
    · exact absurd (Except.ok.inj h).symm (hq _)
    · assumption
  · rename_i hstart
    refine ⟨fun rest hrest => absurd hrest (hstart rest), fun _ => ?_⟩
    split_ifs at h with harrow
    · simp only [splitImplication] at h
      split_ifs at h
      exact absurd (Except.ok.inj h).symm (hi _ _)
    · simpa using harrow

theorem readLiterals_eq_ok {parts : List (List Char)} {ls : List Literal} :
    readLiterals parts = .ok ls ↔ parts.map readLiteral = ls.map .ok := by
  induction parts generalizing ls with
  | nil => cases ls <;> simp [readLiterals]
  | cons part parts ih =>
    rw [readLiterals, List.map_cons]
    cases hl : readLiteral part with
    | error e => cases ls <;> simp
    | ok l =>
      cases hrest : readLiterals parts with
      | error e =>
        cases ls with
        | nil => simp
        | cons m ls => simp [← ih, hrest]
      | ok rest =>
        cases ls with
        | nil => simp
        | cons m ls => simp [← ih, hrest]

theorem readLiteral_eq_ok {p : List Char} {l : Literal} :
    readLiteral p = .ok l ↔
      (splitSign (trim p)).2 ≠ [] ∧ ⟨(splitSign (trim p)).1, readAtom (splitSign (trim p)).2⟩ = l := by
  simp only [readLiteral]
  split_ifs with hbody
  · exact iff_of_false (by simp) fun h => h.1 (by simpa using hbody)
  · exact ⟨fun h => ⟨by simpa using hbody, Except.ok.inj h⟩, fun h => by rw [h.2]⟩

theorem readLiteral_trim (p : List Char) : readLiteral (trim p) = readLiteral p := by
  simp only [readLiteral, trim_trim]

theorem splitSign_not (rest : List Char) : splitSign ('¬' :: rest) = (false, trim rest) := rfl

theorem splitSign_of_head? {cs : List Char} (h : cs.head? ≠ some '¬') : splitSign cs = (true, cs) := by
  unfold splitSign
  split
  · exact absurd rfl h
  · rfl

/-- the texts of positive literals -/
theorem readLiteral_positive {p : List Char} {a : Atom} :
    readLiteral p = .ok ⟨true, a⟩ ↔ trim p ≠ [] ∧ (trim p).head? ≠ some '¬' ∧ readAtom (trim p) = a := by
  rw [readLiteral_eq_ok]
  by_cases hhead : (trim p).head? = some '¬'
  · obtain ⟨rest, hrest⟩ := List.head?_eq_some_iff.1 hhead
    simp [hrest, splitSign_not]
  · rw [splitSign_of_head? hhead]
    simp [hhead]

/-- the texts of negative literals -/
theorem readLiteral_negative {p : List Char} {a : Atom} :
    readLiteral p = .ok ⟨false, a⟩ ↔ ∃ rest, trim p = '¬' :: rest ∧ trim rest ≠ [] ∧ readAtom (trim rest) = a := by
  rw [readLiteral_eq_ok]
  by_cases hhead : (trim p).head? = some '¬'
  · obtain ⟨rest, hrest⟩ := List.head?_eq_some_iff.1 hhead
    simp [hrest, splitSign_not]
  · refine iff_of_false ?_ ?_
    · rw [splitSign_of_head? hhead]
      simp
    · rintro ⟨rest, hrest, -⟩
      exact hhead (by rw [hrest, List.head?_cons])

/-- a `¬` in front of a positive literal turns it -/
theorem readLiteral_not {p : List Char} {l : Literal} (h : readLiteral p = .ok l) (hpos : l.positive = true)
    (hp : trim p = p) : readLiteral ('¬' :: p) = .ok l.complement := by
  obtain ⟨positive, a⟩ := l
  obtain rfl : positive = true := hpos
  obtain ⟨hne, -, hatom⟩ := readLiteral_positive.1 h
  exact readLiteral_negative.2 ⟨p, trim_cons (isBlank_of_mark (by decide)) hp, hne, hatom⟩

/-- a `¬` in front of a negative literal does not turn it: only one `¬` is a sign, and the rest is a name -/
theorem readLiteral_not_not {rest : List Char} (h : trim ('¬' :: rest) = '¬' :: rest) :
    readLiteral ('¬' :: '¬' :: rest) = .ok ⟨false, Atom.prop (String.ofList ('¬' :: rest))⟩ := by
  refine readLiteral_negative.2 ⟨'¬' :: rest, trim_cons (isBlank_of_mark (by decide)) h, by simp [h], ?_⟩
  have hmark : isNameChar '¬' = false := isNameChar_of_mark (by decide)
  rw [h]
  simp [readAtom, hmark, argsText?]

theorem readLiteral_nil : readLiteral [] = .error (.emptyOperand "") := rfl

theorem operand_ne_nil {p : List Char} {parts : List (List Char)} {ls : List Literal}
    (h : parts.map readLiteral = ls.map .ok) (hp : p ∈ parts) : p ≠ [] := by
  rintro rfl
  have hmem : readLiteral [] ∈ ls.map Except.ok := h ▸ List.mem_map_of_mem hp
  simp [readLiteral_nil] at hmem

theorem trim_ne_nil {ls : List Literal} (h : (operands cs).map readLiteral = ls.map .ok) : trim cs ≠ [] := by
  intro hblank
  refine operand_ne_nil h ?_ rfl
  rw [← operands_trim, hblank]
  simp [operands, trim, trimStart, trimEnd]

theorem plain_of_notMem (h : '→' ∉ cs) (hhead : (trim cs).head? ≠ some '∀') : Plain (trim cs) where
  quantifier rest hrest := absurd (by rw [hrest, List.head?_cons]) hhead
  arrow _ hmem := h ((trim_sublist cs).subset hmem)

/-- a text without an operand that is empty is cut into operands, or is itself the only one -/
theorem splitDisjunction_cases (cs : List Char) :
    (∃ e, splitDisjunction cs = .error e ∧ [] ∈ operands cs) ∨ splitDisjunction cs = .ok (.disjunction (operands cs)) ∨
      (splitDisjunction cs = .ok (.literal cs) ∧ operands cs = [trim cs]) := by
  simp only [splitDisjunction]
  split_ifs with hor hempty
  · exact Or.inl ⟨_, rfl, by simpa [operands] using hempty⟩
  · exact Or.inr (Or.inl rfl)
  · exact Or.inr (Or.inr ⟨rfl, operands_of_notMem (by simpa using hor)⟩)

/-- **A plain text denotes the clause of its operands.** -/
theorem readClause_plain (h : Plain (trim cs)) :
    readClause cs = .ok c ↔ (operands cs).map readLiteral = c.literals.map .ok := by
  have hclause : ∀ parts, (readLiterals parts).map Clause.mk = .ok c ↔ parts.map readLiteral = c.literals.map .ok := by
    intro parts
    rw [← readLiterals_eq_ok]
    cases c
    cases readLiterals parts <;> simp [Except.map]
  rw [readClause_eq]
  split_ifs with hblank
  · exact iff_of_false (by simp) fun hmap => trim_ne_nil hmap hblank
  · rw [h.shape]
    rcases splitDisjunction_cases (trim cs) with ⟨e, hsplit, hempty⟩ | hsplit | ⟨hsplit, hone⟩
    · rw [operands_trim] at hempty
      rw [hsplit]
      exact iff_of_false (fun hok => by cases hok) fun hmap => operand_ne_nil hmap hempty rfl
    · rw [hsplit, operands_trim]
      exact hclause (operands cs)
    · rw [operands_trim, trim_trim] at hone
      rw [hsplit, hone]
      exact hclause [trim cs]

/-- **Whatever is read is read from a plain text** in the end, once quantifiers are dropped and implications rewritten. -/
theorem exists_plain (h : readClause cs = .ok c) :
    ∃ t, trim t = t ∧ Plain t ∧ (operands t).map readLiteral = c.literals.map .ok := by
  have hdone : ∀ {cs : List Char} {found : Shape}, ¬ (trim cs).isEmpty = true → shape (trim cs) = .ok found →
      (∀ body, found ≠ .quantified body) → (∀ left right, found ≠ .implication left right) → readShape found = .ok c →
      ∃ t, trim t = t ∧ Plain t ∧ (operands t).map readLiteral = c.literals.map .ok := by
    intro cs found hblank hshape hq hi hfound
    have hread : readClause cs = .ok c := by rw [readClause_of_shape (by simpa using hblank) hshape, hfound]
    refine ⟨trim cs, trim_trim cs, plain_of_shape hshape hq hi, ?_⟩
    rw [operands_trim]
    exact (readClause_plain (plain_of_shape hshape hq hi)).1 hread
  fun_induction readClause cs with
  | case1 cs hblank => cases h
  | case2 cs hblank e hshape => cases h
  | case3 cs hblank body hshape ih => exact ih h
  | case4 cs hblank left right hshape ih => exact ih h
  | case5 cs hblank parts hshape => exact hdone hblank hshape (by simp) (by simp) h
  | case6 cs hblank text hshape => exact hdone hblank hshape (by simp) (by simp) h

end Plain

/-! ## Quantified texts and implications -/

section Rewritten

variable {cs left right : List Char}

/-- the body of a quantified text is read in its place -/
theorem readClause_quantified {rest body : List Char} (hcs : trim cs = '∀' :: rest) (h : quantifiedBody? rest = some body) :
    readClause cs = readClause body := by
  have hshape : shape (trim cs) = .ok (.quantified body) := by simp only [hcs, shape, h]
  exact readClause_of_shape (by simp [hcs]) hshape

/-- a text with one arrow has two sides, which must not be blank -/
theorem splitImplication_arrow (hl : '→' ∉ left) (hr : '→' ∉ right) :
    splitImplication (left ++ '→' :: right) =
      if trim left = [] ∨ trim right = [] then .error (.emptyOperand (String.ofList (left ++ '→' :: right)))
      else .ok (.implication (trim left) (trim right)) := by
  have hcount : (left ++ '→' :: right).count '→' = 1 := by
    rw [List.count_append, List.count_cons_self, List.count_eq_zero.2 hl, List.count_eq_zero.2 hr]
  obtain ⟨htake, hdrop⟩ := span_mark hl right
  simp only [splitImplication, hcount, htake, hdrop, List.tail_cons, ne_eq, not_true_eq_false, if_false,
    Bool.or_eq_true, List.isEmpty_iff]

/-- an arrow makes an implication of every text that does not start as a quantified one -/
theorem shape_of_arrow (hhead : cs.head? ≠ some '∀') (harrow : '→' ∈ cs) : shape cs = splitImplication cs := by
  unfold shape
  split
  · exact absurd rfl hhead
  · rw [if_pos (by simpa using harrow)]

theorem shape_arrow (hl : '→' ∉ left) (hr : '→' ∉ right) (hleft : trim left ≠ []) (hright : trim right ≠ [])
    (hhead : (trim left).head? ≠ some '∀') :
    shape (trim (left ++ '→' :: right)) = .ok (.implication (trim left) (trim right)) := by
  have htrim : trim (left ++ '→' :: right) = trimStart left ++ '→' :: trimEnd right :=
    trim_append_cons (isBlank_of_mark (by decide)) left right
  have hl : '→' ∉ trimStart left := fun h => hl ((trimStart_sublist left).subset h)
  have hr : '→' ∉ trimEnd right := fun h => hr ((trimEnd_sublist right).subset h)
  obtain ⟨after, -, hstart⟩ := exists_trimEnd (trimStart left)
  have hfirst : (trimStart left ++ '→' :: trimEnd right).head? ≠ some '∀' := by
    rw [hstart, ← trim, List.append_assoc, List.head?_append_of_ne_nil _ hleft]
    exact hhead
  rw [htrim, shape_of_arrow hfirst (by simp), splitImplication_arrow hl hr, trim_trimStart, trim_trimEnd,
    if_neg (not_or.2 ⟨hleft, hright⟩)]

/-- the disjunction that stands for an implication has the operands of both sides, the first one after a `¬` -/
theorem operands_implicationText {p : List Char} {ps : List (List Char)} (h : operands left = p :: ps)
    (right : List Char) :
    operands (implicationText (trim left) (trim right)) = ('¬' :: p) :: (ps ++ operands right) := by
  have hcut : implicationText (trim left) (trim right) = '¬' :: trim left ++ [' '] ++ '∨' :: ([' '] ++ trim right) := by
    simp [implicationText]
  have hblank : Blanks [' '] := by decide
  rw [hcut, operands_append, operands_append_blanks hblank, operands_blanks_append hblank, operands_trim,
    operands_not_cons (trim_trim left) (by rw [operands_trim, h])]
  rfl

theorem plain_implicationText (hl : '→' ∉ left) (hr : '→' ∉ right) :
    Plain (trim (implicationText (trim left) (trim right))) := by
  refine plain_of_notMem ?_ ?_
  · have hl : '→' ∉ trim left := fun h => hl ((trim_sublist left).subset h)
    have hr : '→' ∉ trim right := fun h => hr ((trim_sublist right).subset h)
    simp [implicationText, hl, hr]
  · rw [implicationText, ← List.nil_append ('¬' :: _), trim_append_cons (isBlank_of_mark (by decide))]
    simp [trimStart]

/-- an implication is read as the disjunction that stands for it -/
theorem readClause_arrow_eq (hl : '→' ∉ left) (hr : '→' ∉ right) (hleft : trim left ≠ []) (hright : trim right ≠ [])
    (hhead : (trim left).head? ≠ some '∀') :
    readClause (left ++ '→' :: right) = readClause (implicationText (trim left) (trim right)) := by
  refine readClause_of_shape ?_ (shape_arrow hl hr hleft hright hhead)
  rw [trim_append_cons (isBlank_of_mark (by decide))]
  simp

/-- an implication denotes the clause of both sides, the first operand of the antecedent read after a `¬` -/
theorem readClause_arrow {p : List Char} {ps : List (List Char)} {k : Literal} {ls ms : List Literal} (hl : '→' ∉ left)
    (hr : '→' ∉ right) (hhead : (trim left).head? ≠ some '∀') (hparts : operands left = p :: ps) (hp : p ≠ [])
    (hfirst : readLiteral ('¬' :: p) = .ok k) (hrest : ps.map readLiteral = ls.map .ok)
    (hright : (operands right).map readLiteral = ms.map .ok) :
    readClause (left ++ '→' :: right) = .ok ⟨k :: (ls ++ ms)⟩ := by
  have hleft : trim left ≠ [] := by
    intro hblank
    rw [← operands_trim, hblank] at hparts
    exact hp (List.cons.inj hparts).1.symm
  calc readClause (left ++ '→' :: right)
      = readClause (implicationText (trim left) (trim right)) :=
        readClause_arrow_eq hl hr hleft (trim_ne_nil hright) hhead
    _ = .ok ⟨k :: (ls ++ ms)⟩ := (readClause_plain (plain_implicationText hl hr)).2 (by
        rw [operands_implicationText hparts, List.map_cons, List.map_append, hfirst, hrest, hright]
        simp)

/-- **An implication denotes the clause of both sides**, with the first literal of the antecedent turned. -/
theorem readClause_implication {l : Literal} {ls ms : List Literal} (hl : '→' ∉ left) (hr : '→' ∉ right)
    (hhead : (trim left).head? ≠ some '∀') (hleft : (operands left).map readLiteral = (l :: ls).map .ok)
    (hpos : l.positive = true) (hright : (operands right).map readLiteral = ms.map .ok) :
    readClause (left ++ '→' :: right) = .ok ⟨l.complement :: (ls ++ ms)⟩ := by
  obtain ⟨p, ps, hparts⟩ := List.exists_cons_of_ne_nil (operands_ne_nil left)
  have hp : p ≠ [] := operand_ne_nil hleft (hparts ▸ List.mem_cons_self)
  have htrim : trim p = p := trim_of_mem_operands (hparts ▸ List.mem_cons_self)
  rw [hparts] at hleft
  obtain ⟨hfirst, hrest⟩ := List.cons.inj hleft
  exact readClause_arrow hl hr hhead hparts hp (readLiteral_not hfirst hpos htrim) hrest hright

end Rewritten

end Refutation.Formula
