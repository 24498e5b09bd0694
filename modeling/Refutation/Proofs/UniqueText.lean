/-
The text of a readable clause tells which clause it is.

The argument goes from the outside in. The separator between literals has a mark that no literal holds, so the texts of
the literals can be told from the text of the clause; in the same way the arguments can be told from the text of an atom.
Two readable clauses with one text are one clause (`text_injective`), and two with one key of their set of literals have
the same literals (`Dedup.key_eq_iff`). So a working set holds every readable clause that it knows, up to what its keys
leave out (`exists_same`). The empty clause has the key of few other clauses (`Dedup.key_eq_empty`).
-/
import Refutation.Proofs.Readable
import Refutation.Proofs.WorkingSets

namespace Refutation

/-! ## Marks -/

section Marks

variable {mark : Char}

/-- a text is cut in one way at the first mark -/
theorem append_mark_injective {xs ys rest rest' : List Char} (hx : mark ∉ xs) (hy : mark ∉ ys)
    (h : xs ++ mark :: rest = ys ++ mark :: rest') : xs = ys ∧ rest = rest' := by
  induction xs generalizing ys with
  | nil =>
    cases ys with
    | nil => exact ⟨rfl, by simpa using h⟩
    | cons y ys =>
      obtain ⟨rfl, -⟩ := List.cons.inj h
      exact absurd List.mem_cons_self hy
  | cons x xs ih =>
    cases ys with
    | nil =>
      obtain ⟨rfl, -⟩ := List.cons.inj h
      exact absurd List.mem_cons_self hx
    | cons y ys =>
      obtain ⟨rfl, htail⟩ := List.cons.inj h
      obtain ⟨rfl, hrest⟩ := ih (fun hm => hx (List.mem_cons_of_mem _ hm)) (fun hm => hy (List.mem_cons_of_mem _ hm)) htail
      exact ⟨rfl, hrest⟩

/-- texts without the mark can be told from their list with separators around the mark -/
theorem intercalate_injective {before after : List Char} (hbefore : mark ∉ before) {xs ys : List (List Char)}
    (hxs : ∀ x ∈ xs, mark ∉ x) (hys : ∀ y ∈ ys, mark ∉ y) (hx : xs ≠ []) (hy : ys ≠ [])
    (h : (before ++ mark :: after).intercalate xs = (before ++ mark :: after).intercalate ys) : xs = ys := by
  induction xs generalizing ys with
  | nil => exact absurd rfl hx
  | cons x xs ih =>
    cases ys with
    | nil => exact absurd rfl hy
    | cons y ys =>
      have hxm := hxs x List.mem_cons_self
      have hym := hys y List.mem_cons_self
      cases xs with
      | nil =>
        cases ys with
        | nil => simpa using h
        | cons y' ys =>
          rw [List.intercalate_singleton, List.intercalate_cons_cons] at h
          exact absurd (by rw [h]; simp) hxm
      | cons x' xs =>
        cases ys with
        | nil =>
          rw [List.intercalate_singleton, List.intercalate_cons_cons] at h
          exact absurd (by rw [← h]; simp) hym
        | cons y' ys =>
          simp only [List.intercalate_cons_cons, List.append_assoc, List.cons_append] at h
          rw [← List.append_assoc x, ← List.append_assoc y] at h
          obtain ⟨hhead, hrest⟩ := append_mark_injective (by simp [hxm, hbefore]) (by simp [hym, hbefore]) h
          obtain rfl := List.append_cancel_right hhead
          have := ih (fun z hz => hxs z (List.mem_cons_of_mem _ hz)) (fun z hz => hys z (List.mem_cons_of_mem _ hz))
            (by simp) (by simp) (List.append_cancel_left hrest)
          rw [this]

theorem eq_of_map_eq {α β : Type} {f : α → β} {xs ys : List α} (hf : ∀ x ∈ xs, ∀ y ∈ ys, f x = f y → x = y)
    (h : xs.map f = ys.map f) : xs = ys := by
  induction xs generalizing ys with
  | nil => simpa using h.symm
  | cons x xs ih =>
    cases ys with
    | nil => simp at h
    | cons y ys =>
      obtain ⟨hhead, htail⟩ := List.cons.inj h
      rw [hf x List.mem_cons_self y List.mem_cons_self hhead,
        ih (fun a ha b hb => hf a (List.mem_cons_of_mem _ ha) b (List.mem_cons_of_mem _ hb)) htail]

/-- items can be told from the list of their texts if each can be told from its own -/
theorem intercalate_map_injective {α : Type} {f : α → List Char} (before : List Char) (mark : Char) (after : List Char)
    (hbefore : mark ∉ before) {xs ys : List α} (hxs : ∀ x ∈ xs, mark ∉ f x) (hys : ∀ y ∈ ys, mark ∉ f y)
    (hf : ∀ x ∈ xs, ∀ y ∈ ys, f x = f y → x = y) (hx : xs ≠ []) (hy : ys ≠ [])
    (h : (before ++ mark :: after).intercalate (xs.map f) = (before ++ mark :: after).intercalate (ys.map f)) :
    xs = ys := by
  refine eq_of_map_eq hf (intercalate_injective hbefore ?_ ?_ (by simpa using hx) (by simpa using hy) h)
  · simpa using hxs
  · simpa using hys

theorem notMem_intercalate {sep : List Char} (hsep : mark ∉ sep) {xs : List (List Char)} (hxs : ∀ x ∈ xs, mark ∉ x) :
    mark ∉ sep.intercalate xs := by
  induction xs with
  | nil => simp
  | cons x xs ih =>
    have hrest := ih fun y hy => hxs y (List.mem_cons_of_mem _ hy)
    cases xs with
    | nil => simpa using hxs x List.mem_cons_self
    | cons y xs =>
      rw [List.intercalate_cons_cons]
      simp [hsep, hxs x List.mem_cons_self, hrest]

end Marks

/-! ## Equal text, equal clause -/

namespace Term.Readable

theorem name_injective {t u : Term} (ht : t.Readable) (hu : u.Readable) (h : t.name = u.name) : t = u := by
  rw [← ht.kind, ← hu.kind, h]

/-- a list of arguments can be told from its text -/
theorem args_injective {ts us : List Term} (hts : ∀ t ∈ ts, t.Readable) (hus : ∀ u ∈ us, u.Readable) (ht : ts ≠ [])
    (hu : us ≠ [])
    (h : [',', ' '].intercalate (ts.map fun t => t.name.toList) = [',', ' '].intercalate (us.map fun u => u.name.toList)) :
    ts = us := by
  refine intercalate_map_injective [] ',' [' '] List.not_mem_nil ?_ ?_ ?_ ht hu h
  · intro t ht
    exact (hts t ht).comma
  · intro u hu
    exact (hus u hu).comma
  · intro t ht u hu hname
    exact name_injective (hts t ht) (hus u hu) (String.toList_injective hname)

end Term.Readable

namespace Formula

open Text

/-- a name with arguments in brackets is read as a predicate of that name with these arguments -/
theorem readAtom_brackets {name inner : List Char} (hne : name ≠ []) (hname : ∀ c ∈ name, isNameChar c = true)
    (hinner : ')' ∉ inner) (rest : List Char) :
    readAtom (name ++ '(' :: (inner ++ ')' :: rest)) = ⟨String.ofList name, readArgs inner⟩ := by
  have hstop : ∀ c ∈ ('(' :: (inner ++ ')' :: rest)).head?, isNameChar c = false := by
    simpa using isNameChar_of_mark (c := '(') (by decide)
  obtain ⟨htake, hdrop⟩ := span_append hname hstop
  obtain ⟨c, name, rfl⟩ := List.exists_cons_of_ne_nil hne
  have hargs : beforeFirst ')' (inner ++ ')' :: rest) = some inner := beforeFirst_eq_some.2 ⟨hinner, rest, rfl⟩
  simp only [readAtom, htake, hdrop, argsText?, hargs]

end Formula

namespace Atom

theorem toList_text (a : Atom) : a.text.toList =
    if a.args = [] then a.predicate.toList
    else a.predicate.toList ++ '(' :: ([',', ' '].intercalate (a.args.map fun t => t.name.toList) ++ [')']) := by
  simp only [text, List.isEmpty_iff]
  split_ifs
  · rfl
  · simp only [String.toList_append, String.toList_intercalate, List.map_map, List.append_assoc]
    rfl

namespace Readable

variable {a b : Atom}

theorem bracket_notMem (ha : a.Readable) : ')' ∉ [',', ' '].intercalate (a.args.map fun t => t.name.toList) :=
  notMem_intercalate (by decide) (by simpa using fun t ht => (ha.args t ht).bracket)

/-- a proposition and a predicate with arguments differ in text -/
theorem text_ne (ha : a.Readable) (hb : b.Readable) (hargs : a.args = []) (hbargs : b.args ≠ []) :
    a.text.toList ≠ b.text.toList := by
  intro h
  rw [toList_text, toList_text, if_pos hargs, if_neg hbargs] at h
  have hread := Formula.readAtom_brackets hb.nonempty (hb.name hbargs) hb.bracket_notMem []
  rw [← h, ha.bare hargs] at hread
  have hlen := congrArg List.length h
  rw [congrArg Atom.predicate hread] at hlen
  simp at hlen

theorem text_injective (ha : a.Readable) (hb : b.Readable) (h : a.text.toList = b.text.toList) : a = b := by
  by_cases hargs : a.args = []
  · by_cases hbargs : b.args = []
    · rw [toList_text, toList_text, if_pos hargs, if_pos hbargs] at h
      rw [← ha.bare hargs, ← hb.bare hbargs, h]
    · exact absurd h (text_ne ha hb hargs hbargs)
  · by_cases hbargs : b.args = []
    · exact absurd h.symm (text_ne hb ha hbargs hargs)
    · rw [toList_text, toList_text, if_neg hargs, if_neg hbargs] at h
      have hopen : ∀ {p : List Char}, (∀ c ∈ p, Text.isNameChar c = true) → '(' ∉ p := fun hp hm => by
        have := hp _ hm
        rw [Text.isNameChar_of_mark (by decide)] at this
        cases this
      obtain ⟨hpred, hrest⟩ := append_mark_injective (hopen (ha.name hargs)) (hopen (hb.name hbargs)) h
      have := Term.Readable.args_injective ha.args hb.args hargs hbargs (List.append_cancel_right hrest)
      cases a
      cases b
      exact congrArg₂ Atom.mk (String.toList_injective hpred) this

theorem or_notMem_text (ha : a.Readable) : '∨' ∉ a.text.toList := by
  rw [toList_text]
  split_ifs
  · exact ha.or
  · have hargs : '∨' ∉ [',', ' '].intercalate (a.args.map fun t => t.name.toList) :=
      notMem_intercalate (by decide) (by simpa using fun t ht => (ha.args t ht).or)
    simp [ha.or, hargs]

theorem head?_text (ha : a.Readable) : a.text.toList.head? = a.predicate.toList.head? := by
  rw [toList_text]
  split_ifs
  · rfl
  · obtain ⟨c, p, hp⟩ := List.exists_cons_of_ne_nil ha.nonempty
    rw [hp]
    rfl

end Readable

end Atom

namespace Literal

theorem toList_text (l : Literal) :
    l.text.toList = if l.positive = true then l.atom.text.toList else '¬' :: l.atom.text.toList := by
  simp only [text]
  split_ifs
  · rfl
  · rw [String.toList_append]
    rfl

namespace Readable

variable {l m : Literal}

theorem text_injective (hl : l.Readable) (hm : m.Readable) (h : l.text.toList = m.text.toList) : l = m := by
  -- the sign shows in the first character
  have hsign : ∀ {l m : Literal}, l.Readable → l.positive = true → m.positive = false →
      l.text.toList ≠ m.text.toList := by
    intro l m hl hlp hmp h
    rw [toList_text, toList_text, if_pos hlp, if_neg (by simp [hmp])] at h
    have := hl.sign hlp
    rw [← hl.atom.head?_text, h] at this
    exact this rfl
  have hpos : l.positive = m.positive := by
    cases hlp : l.positive <;> cases hmp : m.positive
    · rfl
    · exact absurd h.symm (hsign hm hmp hlp)
    · exact absurd h (hsign hl hlp hmp)
    · rfl
  have hatom : l.atom.text.toList = m.atom.text.toList := by
    rw [toList_text, toList_text, hpos] at h
    split_ifs at h
    · exact h
    · exact List.tail_eq_of_cons_eq h
  cases l
  cases m
  exact congrArg₂ Literal.mk hpos (hl.atom.text_injective hm.atom hatom)

theorem or_notMem_text (hl : l.Readable) : '∨' ∉ l.text.toList := by
  rw [toList_text]
  split_ifs
  · exact hl.atom.or_notMem_text
  · simp [hl.atom.or_notMem_text]

end Readable

end Literal

namespace Clause

theorem toList_text {c : Clause} (h : c.literals ≠ []) :
    c.text.toList = [' ', '∨', ' '].intercalate (c.literals.map fun l => l.text.toList) := by
  simp only [text, List.isEmpty_iff, if_neg h, String.toList_intercalate, List.map_map]
  rfl

/-- **One text, one clause**: readable clauses with literals are equal when their texts are. -/
theorem Readable.text_injective {c d : Clause} (hc : c.Readable) (hd : d.Readable) (hcl : c.literals ≠ [])
    (hdl : d.literals ≠ []) (h : c.text = d.text) : c = d := by
  have h := congrArg String.toList h
  rw [toList_text hcl, toList_text hdl] at h
  have hliterals : c.literals = d.literals := by
    refine intercalate_map_injective [' '] '∨' [' '] (by decide) ?_ ?_ ?_ hcl hdl h
    · intro l hl
      exact (hc l hl).or_notMem_text
    · intro m hm
      exact (hd m hm).or_notMem_text
    · intro l hl m hm htext
      exact (hc l hl).text_injective (hd m hm) htext
  cases c
  cases d
  exact congrArg mk hliterals

end Clause

/-! ## Equal key -/

/-- what two clauses with one key have in common: their literals in order, or their set of literals -/
def Dedup.Same : Dedup → Clause → Clause → Prop
  | .canonical, c, d => c = d
  | .literalSet, c, d => ∀ l, l ∈ c.literals ↔ l ∈ d.literals

namespace Clause

/-- the texts that the key of the set of literals is made of -/
def sortedTexts (c : Clause) : List String :=
  ((c.literals.map Literal.text).mergeSort fun a b => decide (a ≤ b)).eraseDups

theorem mem_sortedTexts {c : Clause} {text : String} : text ∈ c.sortedTexts ↔ ∃ l ∈ c.literals, l.text = text := by
  simp only [sortedTexts, List.mem_eraseDups, List.mem_mergeSort, List.mem_map]

theorem sortedTexts_ne_nil {c : Clause} (h : c.literals ≠ []) : c.sortedTexts ≠ [] := by
  obtain ⟨l, hl⟩ := List.exists_mem_of_ne_nil _ h
  exact List.ne_nil_of_mem (mem_sortedTexts.2 ⟨l, hl, rfl⟩)

theorem sortedTexts_nodup (c : Clause) : c.sortedTexts.Nodup := nodup_eraseDups _

/-- the texts are in increasing order -/
theorem sortedTexts_pairwise (c : Clause) : c.sortedTexts.Pairwise (· ≤ ·) := by
  have hsorted : ((c.literals.map Literal.text).mergeSort fun a b => decide (a ≤ b)).Pairwise
      fun a b => decide (a ≤ b) = true := by
    refine List.pairwise_mergeSort (fun a b c hab hbc => ?_) (fun a b => ?_) _
    · simp only [decide_eq_true_eq] at *
      exact String.le_trans hab hbc
    · simpa using String.le_total a b
  exact (hsorted.sublist (eraseDups_sublist _)).imp fun h => by simpa using h

/-- clauses with the same literals have the same texts, in the same order -/
theorem sortedTexts_congr {c d : Clause} (h : ∀ l, l ∈ c.literals ↔ l ∈ d.literals) :
    c.sortedTexts = d.sortedTexts := by
  have hperm : c.sortedTexts.Perm d.sortedTexts := by
    refine (List.perm_ext_iff_of_nodup c.sortedTexts_nodup d.sortedTexts_nodup).2 fun text => ?_
    simp only [mem_sortedTexts, h]
  exact hperm.eq_of_pairwise (fun _ _ _ _ hab hba => String.le_antisymm hab hba) c.sortedTexts_pairwise
    d.sortedTexts_pairwise

theorem toList_literalSetKey (c : Clause) :
    c.literalSetKey.toList = [' ', '∨', ' '].intercalate (c.sortedTexts.map String.toList) := by
  simp only [literalSetKey, String.toList_intercalate, sortedTexts]
  rfl

theorem literalSetKey_congr {c d : Clause} (h : ∀ l, l ∈ c.literals ↔ l ∈ d.literals) :
    c.literalSetKey = d.literalSetKey :=
  congrArg (String.intercalate separator) (sortedTexts_congr h)

theorem Readable.sortedTexts_eq {c d : Clause} (hc : c.Readable) (hd : d.Readable) (hcl : c.literals ≠ [])
    (hdl : d.literals ≠ []) (h : c.literalSetKey = d.literalSetKey) : c.sortedTexts = d.sortedTexts := by
  have hmark : ∀ {c : Clause}, c.Readable → ∀ text ∈ c.sortedTexts, '∨' ∉ text.toList := by
    intro c hc text htext
    obtain ⟨l, hl, rfl⟩ := mem_sortedTexts.1 htext
    exact (hc l hl).or_notMem_text
  have h := congrArg String.toList h
  rw [toList_literalSetKey, toList_literalSetKey] at h
  exact intercalate_map_injective [' '] '∨' [' '] (by decide) (hmark hc) (hmark hd)
    (fun _ _ _ _ heq => String.toList_injective heq) (sortedTexts_ne_nil hcl) (sortedTexts_ne_nil hdl) h

/-- the literals of a readable clause can be told from their texts -/
theorem Readable.mem_of_sortedTexts {c d : Clause} (hc : c.Readable) (hd : d.Readable)
    (h : c.sortedTexts = d.sortedTexts) {l : Literal} (hl : l ∈ c.literals) : l ∈ d.literals := by
  have htext : l.text ∈ d.sortedTexts := by
    rw [← h]
    exact mem_sortedTexts.2 ⟨l, hl, rfl⟩
  obtain ⟨m, hm, heq⟩ := mem_sortedTexts.1 htext
  rwa [(hc l hl).text_injective (hd m hm) (congrArg String.toList heq.symm)]

end Clause

/-- **One key, one clause** up to what the key leaves out. -/
theorem Dedup.key_eq_iff {k : Dedup} {c d : Clause} (hc : c.Readable) (hd : d.Readable) (hcl : c.literals ≠ [])
    (hdl : d.literals ≠ []) : k.key c = k.key d ↔ k.Same c d := by
  cases k with
  | canonical => exact ⟨hc.text_injective hd hcl hdl, fun h => congrArg Clause.text h⟩
  | literalSet =>
    constructor
    · intro h l
      have htexts := hc.sortedTexts_eq hd hcl hdl h
      exact ⟨hc.mem_of_sortedTexts hd htexts, hd.mem_of_sortedTexts hc htexts.symm⟩
    · intro h
      exact Clause.literalSetKey_congr h

/-! ## The key of the empty clause -/

/-- the literal that a text of one character or none is written for, unless it is the sign alone -/
theorem Literal.text_eq_iff {l : Literal} {text : String} (hshort : text.toList.length ≤ 1)
    (hsign : text.toList ≠ ['¬']) : l.text = text ↔ l = ⟨true, Atom.prop text⟩ := by
  constructor
  · rintro rfl
    obtain ⟨positive, predicate, args⟩ := l
    rw [toList_text] at hshort hsign
    split_ifs at hshort hsign with hpos
    · obtain rfl : positive = true := hpos
      by_cases hargs : args = []
      · subst hargs
        rfl
      · rw [Atom.toList_text, if_neg hargs, List.length_append, List.length_cons, List.length_append,
          List.length_singleton] at hshort
        omega
    · refine absurd ?_ hsign
      have hnone : (Atom.text ⟨predicate, args⟩).toList = [] := by simpa using hshort
      rw [hnone]
  · rintro rfl
    rfl

/-- between two texts there is more than one character -/
theorem eq_singleton_of_length {texts : List (List Char)} {text : List Char} (hne : texts ≠ [])
    (h : [' ', '∨', ' '].intercalate texts = text) (hshort : text.length ≤ 1) : texts = [text] := by
  subst h
  cases texts with
  | nil => exact absurd rfl hne
  | cons first texts =>
    cases texts with
    | nil => rw [List.intercalate_singleton]
    | cons second texts =>
      rw [List.intercalate_cons_cons, List.length_append, List.length_append] at hshort
      simp only [List.length_cons] at hshort
      omega

/-- The clauses with literals that a key does not tell from the empty clause: the proposition `◻` alone, when the key is the
text; any number of propositions without a name, when it is the set of literals. -/
def Dedup.Mimics : Dedup → Clause → Prop
  | .canonical, c => c.literals = [⟨true, Atom.prop Clause.emptyText⟩]
  | .literalSet, c => c.literals ≠ [] ∧ ∀ l ∈ c.literals, l = ⟨true, Atom.prop ""⟩

/-- only the empty clause is written as `◻`, and the proposition of this name -/
theorem Clause.text_eq_emptyText {c : Clause} : c.text = emptyText ↔ c = empty ∨ Dedup.canonical.Mimics c := by
  by_cases hne : c.literals = []
  · obtain rfl : c = empty := congrArg Clause.mk hne
    exact iff_of_true rfl (Or.inl rfl)
  · have hempty : c ≠ empty := fun h => hne (congrArg Clause.literals h)
    simp only [hempty, false_or, Dedup.Mimics]
    constructor
    · intro htext
      have hwhole : [' ', '∨', ' '].intercalate (c.literals.map fun l => l.text.toList) = ['◻'] := by
        rw [← toList_text hne, htext]
        rfl
      have hone := eq_singleton_of_length (by simpa using hne) hwhole (by decide)
      obtain ⟨l, hl, hlt⟩ := List.map_eq_singleton_iff.1 hone
      have htext : l.text = emptyText := String.toList_injective hlt
      rw [hl, (Literal.text_eq_iff (by decide) (by decide)).1 htext]
    · intro hl
      obtain ⟨literals⟩ := c
      subst hl
      rfl

theorem Clause.literalSetKey_empty : empty.literalSetKey = "" := by simp [literalSetKey, empty]

theorem Clause.literalSetKey_eq_emptyString {c : Clause} : c.literalSetKey = "" ↔ c = empty ∨ Dedup.literalSet.Mimics c := by
  by_cases hne : c.literals = []
  · obtain rfl : c = empty := congrArg Clause.mk hne
    exact iff_of_true literalSetKey_empty (Or.inl rfl)
  · have hempty : c ≠ empty := fun h => hne (congrArg Clause.literals h)
    simp only [hempty, false_or, Dedup.Mimics, ne_eq, hne, not_false_eq_true, true_and]
    constructor
    · intro hkey l hl
      have hwhole : [' ', '∨', ' '].intercalate (c.sortedTexts.map String.toList) = [] := by
        rw [← toList_literalSetKey, hkey]
        rfl
      have hone := eq_singleton_of_length (by simpa using sortedTexts_ne_nil hne) hwhole (by decide)
      have hmem : l.text.toList ∈ [[]] := by
        rw [← hone]
        exact List.mem_map_of_mem (mem_sortedTexts.2 ⟨l, hl, rfl⟩)
      have htext : l.text = "" := String.toList_eq_nil_iff.1 (List.mem_singleton.1 hmem)
      exact (Literal.text_eq_iff (by decide) (by decide)).1 htext
    · intro hall
      obtain ⟨l, hl⟩ := List.exists_mem_of_ne_nil _ hne
      obtain rfl := hall l hl
      have hsame : c.literalSetKey = Clause.literalSetKey ⟨[⟨true, Atom.prop ""⟩]⟩ := by
        refine literalSetKey_congr fun m => ?_
        rw [List.mem_singleton]
        exact ⟨hall m, fun hm => hm ▸ hl⟩
      rw [hsame]
      simp only [literalSetKey, List.map_cons, List.map_nil, List.mergeSort_singleton]
      rfl

/-- **What has the key of the empty clause** is the empty clause or mimics it. -/
theorem Dedup.key_eq_empty {k : Dedup} {c : Clause} : k.key c = k.key .empty ↔ c = .empty ∨ k.Mimics c := by
  cases k with
  | canonical => exact Clause.text_eq_emptyText
  | literalSet =>
    have hempty : literalSet.key .empty = "" := Clause.literalSetKey_empty
    rw [hempty]
    exact Clause.literalSetKey_eq_emptyString

/-- **No clause is lost to another clause with its key.** -/
theorem WorkingSet.KeysExact.exists_same {w : WorkingSet} {c : Clause} (hw : w.KeysExact)
    (hempty : Clause.empty ∉ w.clauses) (hread : ∀ d ∈ w.clauses, d.Readable) (hc : c.Readable)
    (hne : c.isEmpty = false) (h : w.knows c = true) : ∃ d ∈ w.clauses, w.dedup.Same d c := by
  obtain ⟨d, hd, hkey⟩ := hw.exists_of_knows h
  have hdne : d.literals ≠ [] := by
    intro hnil
    have hd0 : d = Clause.empty := congrArg Clause.mk hnil
    rw [hd0] at hd
    exact hempty hd
  have hcne : c.literals ≠ [] := by simpa [Clause.isEmpty] using hne
  exact ⟨d, hd, (Dedup.key_eq_iff (hread d hd) hc hdne hcne).1 hkey⟩

/-- a working set that knows clauses by their text holds the readable clauses that it knows -/
theorem WorkingSet.KeysExact.mem_of_knows {w : WorkingSet} {c : Clause} (hw : w.KeysExact) (hdedup : w.dedup = .canonical)
    (hempty : Clause.empty ∉ w.clauses) (hread : ∀ d ∈ w.clauses, d.Readable) (hc : c.Readable)
    (hne : c.isEmpty = false) (h : w.knows c = true) : c ∈ w.clauses := by
  obtain ⟨d, hd, hsame⟩ := hw.exists_same hempty hread hc hne h
  rw [hdedup] at hsame
  obtain rfl : d = c := hsame
  exact hd

end Refutation
