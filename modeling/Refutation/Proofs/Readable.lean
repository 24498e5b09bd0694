/-
Clauses that can be told from their text.

That is not so for all clauses: a proposition may be named `P(A)`, or a constant `A, B`. `Readable` collects what is
needed: no mark that ends a name, an argument or a literal occurs inside of one, a predicate with arguments is a plain
name, a proposition does not look like a predicate with arguments, and the kind of a term is the one that its name shows.
What is read from text is readable (`Formula.read_readable`), and resolvents of readable clauses are readable
(`Clause.Readable.resolvent`), so every clause of a search on formulas is.
-/
import Mathlib.Data.List.TakeWhile
import Refutation.Formula.Read
import Refutation.Proofs.Resolvents
import Refutation.Proofs.Texts

namespace Refutation

/-- the name ends where it should when it stands in an argument list, and shows the kind of the term -/
structure Term.Readable (t : Term) : Prop where
  comma : ',' ∉ t.name.toList
  bracket : ')' ∉ t.name.toList
  or : '∨' ∉ t.name.toList
  kind : Term.ofName t.name = t

/-- the atom can be told from its text -/
structure Atom.Readable (a : Atom) : Prop where
  nonempty : a.predicate.toList ≠ []
  or : '∨' ∉ a.predicate.toList
  /-- a proposition does not look like a predicate with arguments -/
  bare : a.args = [] → Formula.readAtom a.predicate.toList = a
  name : a.args ≠ [] → ∀ c ∈ a.predicate.toList, Text.isNameChar c = true
  args : ∀ t ∈ a.args, t.Readable

/-- the literal can be told from its text: a positive one does not start with `¬` -/
structure Literal.Readable (l : Literal) : Prop where
  atom : l.atom.Readable
  sign : l.positive = true → l.atom.predicate.toList.head? ≠ some '¬'

/-- every literal can be told from its text -/
def Clause.Readable (c : Clause) : Prop := ∀ l ∈ c.literals, l.Readable

/-! ## Atoms -/

/-- the pieces between marks hold no mark, and nothing that the text does not hold -/
theorem of_mem_splitOn {mark : Char} {xs piece : List Char} (h : piece ∈ xs.splitOn mark) : mark ∉ piece ∧ piece ⊆ xs := by
  induction xs generalizing piece with
  | nil =>
    obtain rfl : piece = [] := by simpa using h
    simp
  | cons x xs ih =>
    rw [List.splitOn_cons_eq_if_modifyHead] at h
    split_ifs at h with hx
    · rcases List.mem_cons.1 h with rfl | h
      · simp
      · exact ⟨(ih h).1, List.subset_cons_of_subset _ (ih h).2⟩
    · cases hs : xs.splitOn mark with
      | nil => exact absurd hs (List.splitOn_ne_nil mark xs)
      | cons first others =>
        rw [hs] at ih h
        rcases List.mem_cons.1 h with rfl | h
        · obtain ⟨hfirst, hsub⟩ := ih List.mem_cons_self
          have hxm : mark ≠ x := fun e => hx (by simp [e])
          exact ⟨by simp [hxm, hfirst], List.cons_subset_cons _ hsub⟩
        · obtain ⟨hpiece, hsub⟩ := ih (List.mem_cons_of_mem _ h)
          exact ⟨hpiece, List.subset_cons_of_subset _ hsub⟩

theorem Term.name_ofName (name : String) : (Term.ofName name).name = name := by
  simp only [ofName]
  split_ifs <;> rfl

namespace Formula

open Text

theorem of_mem_readArgs {cs : List Char} {t : Term} (ht : t ∈ readArgs cs) :
    ',' ∉ t.name.toList ∧ t.name.toList ⊆ cs ∧ Term.ofName t.name = t := by
  simp only [readArgs] at ht
  split_ifs at ht
  · cases ht
  · obtain ⟨arg, harg, rfl⟩ := List.mem_map.1 ht
    obtain ⟨hcomma, hsub⟩ := of_mem_splitOn harg
    have hname : (Term.ofName (String.ofList (trim arg))).name.toList ⊆ arg := by
      rw [Term.name_ofName, String.toList_ofList]
      exact (trim_sublist arg).subset
    exact ⟨fun h => hcomma (hname h), fun c hc => hsub (hname hc), by rw [Term.name_ofName]⟩

theorem readArgs_readable {cs : List Char} (hbracket : ')' ∉ cs) (hor : '∨' ∉ cs) {t : Term} (ht : t ∈ readArgs cs) :
    t.Readable := by
  obtain ⟨hcomma, hsub, hkind⟩ := of_mem_readArgs ht
  exact ⟨hcomma, fun h => hbracket (hsub h), fun h => hor (hsub h), hkind⟩

/-- an atom is a proposition named by the whole text, or a plain name with the arguments up to the first bracket -/
theorem readAtom_cases (body : List Char) :
    readAtom body = Atom.prop (String.ofList body) ∨
      ∃ name args rest, name ≠ [] ∧ (∀ c ∈ name, isNameChar c = true) ∧ ')' ∉ args ∧
        body = name ++ '(' :: (args ++ ')' :: rest) ∧ readAtom body = ⟨String.ofList name, readArgs args⟩ := by
  simp only [readAtom]
  cases hargs : argsText? (body.takeWhile isNameChar) (body.dropWhile isNameChar) with
  | none => exact Or.inl rfl
  | some args =>
    simp only [argsText?] at hargs
    split at hargs
    · rename_i c name inner hname hrest
      obtain ⟨hbracket, rest, rfl⟩ := beforeFirst_eq_some.1 hargs
      refine Or.inr ⟨body.takeWhile isNameChar, args, rest, by simp [hname], fun c hc => List.mem_takeWhile_imp hc,
        hbracket, ?_, rfl⟩
      rw [← hrest, List.takeWhile_append_dropWhile]
    · cases hargs

/-- a plain name is a proposition -/
theorem readAtom_name {name : List Char} (h : ∀ c ∈ name, isNameChar c = true) :
    readAtom name = Atom.prop (String.ofList name) := by
  have hdrop : name.dropWhile isNameChar = [] := List.dropWhile_eq_nil_iff.2 h
  simp only [readAtom, hdrop]
  cases name.takeWhile isNameChar <;> rfl

theorem readAtom_readable {body : List Char} (hne : body ≠ []) (hor : '∨' ∉ body) : (readAtom body).Readable := by
  rcases readAtom_cases body with h | ⟨name, args, rest, hname, hplain, hbracket, rfl, h⟩
  · refine ⟨?_, ?_, fun _ => ?_, fun hargs => ?_, fun t ht => ?_⟩
    · simpa [h, Atom.prop] using hne
    · simpa [h, Atom.prop] using hor
    · conv => lhs; rw [h]
      simp [Atom.prop]
    · exact absurd (by rw [h]; rfl) hargs
    · rw [h] at ht
      cases ht
  · rw [h]
    refine ⟨by simpa using hname, ?_, fun hargs => ?_, fun _ => by simpa using hplain, fun t ht => ?_⟩
    · rw [String.toList_ofList]
      exact fun hm => hor (by simp [hm])
    · have hargs : readArgs args = [] := hargs
      rw [String.toList_ofList, readAtom_name hplain, hargs]
      rfl
    · exact readArgs_readable hbracket (fun hm => hor (by simp [hm])) ht

/-- the name of an atom starts as its text does -/
theorem head?_readAtom {body : List Char} : (readAtom body).predicate.toList.head? = body.head? := by
  rcases readAtom_cases body with h | ⟨name, args, rest, hname, -, -, rfl, h⟩
  · simp [h, Atom.prop]
  · obtain ⟨c, name, rfl⟩ := List.exists_cons_of_ne_nil hname
    rw [h, String.toList_ofList]
    rfl

/-! ## Literals and clauses -/

theorem splitSign_sublist (cs : List Char) : (splitSign cs).2.Sublist cs := by
  unfold splitSign
  split
  · exact (trim_sublist _).cons _
  · exact List.Sublist.refl _

theorem head?_splitSign {cs : List Char} (h : (splitSign cs).1 = true) : (splitSign cs).2.head? ≠ some '¬' := by
  unfold splitSign at h ⊢
  split at h
  · cases h
  · rename_i hneg
    cases cs with
    | nil => simp
    | cons c cs =>
      simp only [List.head?_cons, ne_eq, Option.some.injEq]
      rintro rfl
      exact hneg cs rfl

theorem readLiteral_readable {cs : List Char} {l : Literal} (hor : '∨' ∉ cs) (h : readLiteral cs = .ok l) :
    l.Readable := by
  simp only [readLiteral] at h
  split_ifs at h with hbody
  obtain rfl := Except.ok.inj h
  have hsub := (splitSign_sublist (trim cs)).trans (trim_sublist cs)
  refine ⟨readAtom_readable (by simpa using hbody) fun hm => hor (hsub.subset hm), fun hpos => ?_⟩
  rw [head?_readAtom]
  exact head?_splitSign hpos

theorem readLiterals_readable {parts : List (List Char)} {ls : List Literal} (hor : ∀ part ∈ parts, '∨' ∉ part)
    (h : readLiterals parts = .ok ls) : ls.length = parts.length ∧ ∀ l ∈ ls, l.Readable := by
  induction parts generalizing ls with
  | nil =>
    obtain rfl := Except.ok.inj h
    simp
  | cons part parts ih =>
    simp only [readLiterals] at h
    cases hl : readLiteral part with
    | error e => simp [hl] at h
    | ok l =>
      cases hls : readLiterals parts with
      | error e => simp [hl, hls] at h
      | ok rest =>
        obtain rfl : l :: rest = ls := by simpa [hl, hls] using h
        obtain ⟨hlen, hrest⟩ := ih (fun p hp => hor p (List.mem_cons_of_mem _ hp)) hls
        refine ⟨by simp [hlen], fun k hk => ?_⟩
        rcases List.mem_cons.1 hk with rfl | hk
        · exact readLiteral_readable (hor part List.mem_cons_self) hl
        · exact hrest k hk

theorem splitDisjunction_ok {cs : List Char} {found : Shape} (h : splitDisjunction cs = .ok found) :
    found = .disjunction ((cs.splitOn '∨').map trim) ∨ ('∨' ∉ cs ∧ found = .literal cs) := by
  simp only [splitDisjunction] at h
  split_ifs at h with hor
  · exact Or.inl (Except.ok.inj h).symm
  · exact Or.inr ⟨by simpa using hor, (Except.ok.inj h).symm⟩

/-- a text that is neither quantified nor an implication is cut at every `∨` -/
theorem shape_ok {cs : List Char} {found : Shape} (h : shape cs = .ok found) :
    (∃ body, found = .quantified body) ∨ (∃ left right, found = .implication left right) ∨
      found = .disjunction ((cs.splitOn '∨').map trim) ∨ ('∨' ∉ cs ∧ found = .literal cs) := by
  unfold shape at h
  split at h
  · split at h
    · exact Or.inl ⟨_, (Except.ok.inj h).symm⟩
    · exact Or.inr (Or.inr (splitDisjunction_ok h))
  · split_ifs at h
    · simp only [splitImplication] at h
      split_ifs at h
      exact Or.inr (Or.inl ⟨_, _, (Except.ok.inj h).symm⟩)
    · exact Or.inr (Or.inr (splitDisjunction_ok h))

/-- operands without `∨` are read as a readable clause with a literal for each -/
theorem readParts_readable {parts : List (List Char)} {c : Clause} (hne : parts ≠ [])
    (hor : ∀ part ∈ parts, '∨' ∉ part) (h : (readLiterals parts).map Clause.mk = .ok c) :
    c.literals ≠ [] ∧ c.Readable := by
  cases hls : readLiterals parts with
  | error e => simp [hls, Except.map] at h
  | ok ls =>
    obtain rfl : Clause.mk ls = c := by simpa [hls, Except.map] using h
    obtain ⟨hlen, hread⟩ := readLiterals_readable hor hls
    refine ⟨fun hnil => hne ?_, hread⟩
    have hnil : ls = [] := hnil
    rw [hnil] at hlen
    exact List.length_eq_zero_iff.1 hlen.symm

theorem readClause_readable {cs : List Char} {c : Clause} (h : readClause cs = .ok c) :
    c.literals ≠ [] ∧ c.Readable := by
  fun_induction readClause cs with
  | case1 cs hblank => cases h
  | case2 cs hblank e hshape => cases h
  | case3 cs hblank body hshape ih => exact ih h
  | case4 cs hblank left right hshape ih => exact ih h
  | case5 cs hblank parts hshape =>
    rcases shape_ok hshape with ⟨_, hfound⟩ | ⟨_, _, hfound⟩ | hfound | ⟨-, hfound⟩ <;> cases hfound
    refine readParts_readable (by simp [List.splitOn_ne_nil]) (fun part hpart => ?_) h
    obtain ⟨piece, hpiece, rfl⟩ := List.mem_map.1 hpart
    exact fun hm => (of_mem_splitOn hpiece).1 ((trim_sublist piece).subset hm)
  | case6 cs hblank text hshape =>
    rcases shape_ok hshape with ⟨_, hfound⟩ | ⟨_, _, hfound⟩ | hfound | ⟨hor, hfound⟩ <;> cases hfound
    exact readParts_readable (by simp) (by simpa using hor) h

/-- **What is read is readable**, and has a literal. -/
theorem read_readable {formula : String} {c : Clause} (h : read formula = .ok c) : c.literals ≠ [] ∧ c.Readable :=
  readClause_readable h

end Formula

/-! ## Resolvents -/

/-- **Resolution keeps clauses readable.** -/
theorem Clause.Readable.resolvent {u : Unifier} {c d : Clause} {r : Resolvent} (hc : c.Readable) (hd : d.Readable)
    (h : r ∈ resolvents u c d) : r.clause.Readable := by
  intro k hk
  obtain ⟨l, hl, hsign, hpred, harity, hterms⟩ := mem_literals_resolvent h hk
  have hl : l.Readable := (List.mem_append.1 hl).elim (hc l) (hd l)
  have hargs : ∀ t ∈ k.atom.args, t.Readable := by
    intro t ht
    rcases List.mem_append.1 (hterms t ht) with ht | ht
    · obtain ⟨m, hm, htm⟩ := Clause.mem_terms.1 ht
      exact (hc m hm).atom.args t htm
    · obtain ⟨m, hm, htm⟩ := Clause.mem_terms.1 ht
      exact (hd m hm).atom.args t htm
  have hempty : k.atom.args = [] ↔ l.atom.args = [] := by
    rw [← List.length_eq_zero_iff, harity, List.length_eq_zero_iff]
  refine ⟨⟨?_, ?_, ?_, ?_, hargs⟩, ?_⟩
  · rw [hpred]
    exact hl.atom.nonempty
  · rw [hpred]
    exact hl.atom.or
  · intro hnil
    have hatom : k.atom = l.atom := congrArg₂ Atom.mk hpred (hnil.trans (hempty.1 hnil).symm)
    rw [hatom]
    exact hl.atom.bare (hempty.1 hnil)
  · intro hsome
    rw [hpred]
    exact hl.atom.name fun hnil => hsome (hempty.2 hnil)
  · rw [hpred, hsign]
    exact hl.sign

end Refutation
