/-
Trimming and cutting text.

A text is its trimmed form between two runs of blanks (`exists_trim`), and blanks put around a text do not change its
trimmed form (`trim_pad`). A text is cut at the first or last mark in one way (`beforeFirst_eq_some`,
`beforeLast_eq_some`). `Listed mark R xs text` says that the text lists the items `xs` with a mark between any two and
blanks around each; cutting at the marks and trimming gives the items back (`Listed.map_splitOn`).
-/
import Mathlib.Data.List.DropRight
import Refutation.Text.Blank
import Refutation.Text.Cut
import Refutation.Text.Name

namespace Refutation.Text

/-! ## Characters -/

/-- the characters with a meaning in formulas -/
def marks : List Char := ['¬', '∨', '→', '∀', '(', ')', ',']

theorem marks_plain : (marks.all fun c => !isBlank c && !isNameChar c) = true := by decide +kernel

theorem isBlank_of_mark {c : Char} (h : c ∈ marks) : isBlank c = false := by
  have := List.all_eq_true.1 marks_plain c h
  simp_all

theorem isNameChar_of_mark {c : Char} (h : c ∈ marks) : isNameChar c = false := by
  have := List.all_eq_true.1 marks_plain c h
  simp_all

/-- every code point from the first to the last of a span -/
def Span.points (s : Span) : List Nat := List.range' s.first (s.last + 1 - s.first)

theorem mem_points_of_inTable {table : List Span} {n : Nat} (h : inTable table n = true) :
    n ∈ table.flatMap Span.points := by
  induction table with
  | nil => cases h
  | cons s rest ih =>
    simp only [inTable] at h
    split_ifs at h
    rw [List.flatMap_cons, List.mem_append]
    rcases Bool.or_eq_true_iff.1 h with hs | hrest
    · simp only [Span.holds, Bool.and_eq_true, decide_eq_true_eq] at hs
      refine Or.inl (List.mem_range'_1.2 ⟨hs.1.1, ?_⟩)
      omega
    · exact Or.inr (ih hrest)

theorem blanks_nameless :
    ((blankTable.flatMap Span.points).all fun n => !inTable alphanumericTable n && n != '_'.toNat) = true := by
  decide +kernel

/-- no blank can stand in a name -/
theorem isBlank_of_isNameChar {c : Char} (h : isNameChar c = true) : isBlank c = false := by
  by_contra hblank
  have hpoint := List.all_eq_true.1 blanks_nameless _ (mem_points_of_inTable (Bool.not_eq_false _ |>.mp hblank))
  simp only [Bool.and_eq_true, Bool.not_eq_true', bne_iff_ne] at hpoint
  simp only [isNameChar, isAlphanumeric, hpoint.1, Bool.false_or, beq_iff_eq] at h
  exact hpoint.2 (congrArg Char.toNat h)

/-! ## Blanks around a text -/

/-- all characters are blank -/
def Blanks (cs : List Char) : Prop := ∀ c ∈ cs, isBlank c = true

instance (cs : List Char) : Decidable (Blanks cs) :=
  decidable_of_iff (cs.all isBlank = true) List.all_eq_true

theorem Blanks.mark_notMem {cs : List Char} (h : Blanks cs) {mark : Char} (hmark : mark ∈ marks) : mark ∉ cs := by
  intro hmem
  have := h mark hmem
  rw [isBlank_of_mark hmark] at this
  cases this

theorem Blanks.append {cs ds : List Char} (hc : Blanks cs) (hd : Blanks ds) : Blanks (cs ++ ds) := by
  intro c h
  exact (List.mem_append.1 h).elim (hc c) (hd c)

theorem trimStart_pad {before : List Char} (h : Blanks before) (cs : List Char) :
    trimStart (before ++ cs) = trimStart cs :=
  List.dropWhile_append_of_pos h

theorem trimEnd_pad {after : List Char} (h : Blanks after) (cs : List Char) : trimEnd (cs ++ after) = trimEnd cs := by
  simp only [trimEnd, List.reverse_append]
  rw [List.dropWhile_append_of_pos fun c hc => h c (List.mem_reverse.1 hc)]

theorem trimStart_eq_nil {cs : List Char} : trimStart cs = [] ↔ Blanks cs := List.dropWhile_eq_nil_iff

theorem trim_blanks_append {before : List Char} (hb : Blanks before) (cs : List Char) : trim (before ++ cs) = trim cs := by
  rw [trim, trimStart_pad hb, trim]

theorem trim_append_blanks {after : List Char} (ha : Blanks after) (cs : List Char) : trim (cs ++ after) = trim cs := by
  rw [trim, trim]
  by_cases hcs : trimStart cs = []
  · have hall : trimStart (cs ++ after) = [] := trimStart_eq_nil.2 ((trimStart_eq_nil.1 hcs).append ha)
    rw [hall, hcs]
  · have hsome : trimStart (cs ++ after) = trimStart cs ++ after := by
      simp only [trimStart] at hcs ⊢
      rw [List.dropWhile_append, if_neg (by simpa using hcs)]
    rw [hsome, trimEnd_pad ha]

/-- **Blanks around a text are trimmed away.** -/
theorem trim_pad {before after : List Char} (hb : Blanks before) (ha : Blanks after) (cs : List Char) :
    trim (before ++ cs ++ after) = trim cs := by
  rw [trim_append_blanks ha, trim_blanks_append hb]

theorem exists_trimStart (cs : List Char) : ∃ before, Blanks before ∧ cs = before ++ trimStart cs :=
  ⟨cs.takeWhile isBlank, fun _ h => List.mem_takeWhile_imp h, List.takeWhile_append_dropWhile.symm⟩

theorem exists_trimEnd (cs : List Char) : ∃ after, Blanks after ∧ cs = trimEnd cs ++ after :=
  ⟨cs.rtakeWhile isBlank, fun _ h => List.mem_rtakeWhile_imp h, List.rdropWhile_append_rtakeWhile.symm⟩

/-- **A text is its trimmed form between blanks.** -/
theorem exists_trim (cs : List Char) :
    ∃ before after, Blanks before ∧ Blanks after ∧ cs = before ++ trim cs ++ after := by
  obtain ⟨before, hbefore, hstart⟩ := exists_trimStart cs
  obtain ⟨after, hafter, hend⟩ := exists_trimEnd (trimStart cs)
  refine ⟨before, after, hbefore, hafter, ?_⟩
  calc cs = before ++ trimStart cs := hstart
    _ = before ++ (trim cs ++ after) := congrArg (before ++ ·) hend
    _ = before ++ trim cs ++ after := (List.append_assoc _ _ _).symm

theorem trim_trim (cs : List Char) : trim (trim cs) = trim cs := by
  obtain ⟨before, after, hb, ha, hcs⟩ := exists_trim cs
  conv_rhs => rw [hcs, trim_pad hb ha]

theorem trim_eq_nil {cs : List Char} : trim cs = [] ↔ Blanks cs := by
  constructor
  · intro h
    obtain ⟨before, after, hb, ha, hcs⟩ := exists_trim cs
    rw [h, List.append_nil] at hcs
    rw [hcs]
    exact hb.append ha
  · intro h
    rw [trim, trimStart_eq_nil.2 h]
    rfl

theorem trim_trimStart (cs : List Char) : trim (trimStart cs) = trim cs := by
  obtain ⟨before, hb, hcs⟩ := exists_trimStart cs
  conv_rhs => rw [hcs, trim_blanks_append hb]

theorem trim_trimEnd (cs : List Char) : trim (trimEnd cs) = trim cs := by
  obtain ⟨after, ha, hcs⟩ := exists_trimEnd cs
  conv_rhs => rw [hcs, trim_append_blanks ha]

/-- a character that is not blank stays where it is, and so does what stands inside of it -/
theorem trim_append_cons {c : Char} (hc : isBlank c = false) (xs ys : List Char) :
    trim (xs ++ c :: ys) = trimStart xs ++ c :: trimEnd ys := by
  have hcut : ∀ zs rest : List Char, (zs ++ c :: rest).dropWhile isBlank = zs.dropWhile isBlank ++ c :: rest := by
    intro zs rest
    rw [List.dropWhile_append]
    split_ifs with hzs
    · rw [List.isEmpty_iff.1 hzs, List.dropWhile_cons_of_neg (by simp [hc]), List.nil_append]
    · rfl
  have hrev : (trimStart xs ++ c :: ys).reverse = ys.reverse ++ c :: (trimStart xs).reverse := by simp
  rw [trim, trimStart, hcut, ← trimStart, trimEnd, hrev, hcut, trimEnd]
  simp

/-- a text is trimmed when neither its first nor its last character is blank -/
theorem trim_eq_self {cs : List Char} :
    trim cs = cs ↔ (∀ c ∈ cs.head?, isBlank c = false) ∧ ∀ c ∈ cs.getLast?, isBlank c = false := by
  have hend : ∀ ds : List Char, trimEnd ds = ds ↔ ∀ c ∈ ds.getLast?, isBlank c = false := by
    intro ds
    rcases List.eq_nil_or_concat ds with rfl | ⟨ds, d, rfl⟩
    · simp [trimEnd]
    · simp only [List.concat_eq_append, List.getLast?_concat, Option.mem_some_iff, forall_eq']
      refine ⟨fun h => ?_, fun h => by simp [trimEnd, h]⟩
      by_contra hd
      have hblank : Blanks [d] := by simpa [Blanks] using hd
      rw [trimEnd_pad hblank] at h
      have hle := (trimEnd_sublist ds).length_le
      rw [h, List.length_append, List.length_singleton] at hle
      omega
  cases cs with
  | nil => simp [trim, trimStart, trimEnd]
  | cons c cs =>
    simp only [List.head?_cons, Option.mem_some_iff, forall_eq']
    cases hc : isBlank c with
    | false =>
      have hstart : trim (c :: cs) = trimEnd (c :: cs) := by simp [trim, trimStart, hc]
      rw [hstart, hend]
      simp
    | true =>
      refine iff_of_false (fun h => ?_) (by simp)
      have hdrop : trim (c :: cs) = trim cs := by simp [trim, trimStart, hc]
      have hle := (trim_sublist cs).length_le
      rw [← hdrop, h, List.length_cons] at hle
      omega

theorem trim_cons {c : Char} {cs : List Char} (hc : isBlank c = false) (hcs : trim cs = cs) : trim (c :: cs) = c :: cs := by
  refine trim_eq_self.2 ⟨by simpa using hc, ?_⟩
  cases cs with
  | nil => simpa using hc
  | cons d cs => simpa using (trim_eq_self.1 hcs).2

theorem trim_name {name : List Char} (h : ∀ c ∈ name, isNameChar c = true) : trim name = name :=
  trim_eq_self.2 ⟨fun c hc => isBlank_of_isNameChar (h c (List.mem_of_mem_head? hc)),
    fun c hc => isBlank_of_isNameChar (h c (List.mem_of_mem_getLast? hc))⟩

/-- texts that are trimmed and not empty are listed in a trimmed text -/
theorem trim_intercalate {sep : List Char} {texts : List (List Char)}
    (h : ∀ text ∈ texts, trim text = text ∧ text ≠ []) : trim (sep.intercalate texts) = sep.intercalate texts := by
  induction texts with
  | nil => simp [trim, trimStart, trimEnd]
  | cons text texts ih =>
    obtain ⟨htext, hne⟩ := h text List.mem_cons_self
    have ih := ih fun t ht => h t (List.mem_cons_of_mem _ ht)
    cases texts with
    | nil => rwa [List.intercalate_singleton]
    | cons next texts =>
      have hlater : sep.intercalate (next :: texts) ≠ [] := by
        have hnext := (h next (by simp)).2
        cases texts <;> simp [hnext]
      rw [List.intercalate_cons_cons]
      refine trim_eq_self.2 ⟨?_, ?_⟩
      · rw [List.append_assoc, List.head?_append_of_ne_nil _ hne]
        exact (trim_eq_self.1 htext).1
      · rw [List.getLast?_append_of_ne_nil _ hlater]
        exact (trim_eq_self.1 ih).2

/-! ## Cutting at a mark -/

section Cutting

variable {mark : Char} {cs inner : List Char}

theorem span_append {p : Char → Bool} {xs rest : List Char} (hxs : ∀ x ∈ xs, p x = true)
    (hrest : ∀ c ∈ rest.head?, p c = false) :
    (xs ++ rest).takeWhile p = xs ∧ (xs ++ rest).dropWhile p = rest := by
  rw [List.takeWhile_append_of_pos hxs, List.dropWhile_append_of_pos hxs]
  cases rest with
  | nil => simp
  | cons c rest => simp [hrest c rfl]

theorem span_mark {xs : List Char} (h : mark ∉ xs) (rest : List Char) :
    (xs ++ mark :: rest).takeWhile (· != mark) = xs ∧ (xs ++ mark :: rest).dropWhile (· != mark) = mark :: rest :=
  span_append (fun _ hx => bne_iff_ne.2 fun e => h (e ▸ hx)) (by simp)

theorem notMem_toDigits {c : Char} (h : c.isDigit = false) (n : Nat) : c ∉ Nat.toDigits 10 n := by
  intro hmem
  rw [Nat.isDigit_of_mem_toDigits (by decide) (by decide) hmem] at h
  cases h

/-- what stands before the first mark -/
theorem beforeFirst_eq_some :
    beforeFirst mark cs = some inner ↔ mark ∉ inner ∧ ∃ rest, cs = inner ++ mark :: rest := by
  constructor
  · intro h
    simp only [beforeFirst] at h
    split_ifs at h with hmem
    obtain ⟨xs, rest, rfl, hxs⟩ := List.eq_append_cons_of_mem (List.contains_iff_mem.1 hmem)
    rw [(span_mark hxs rest).1] at h
    obtain rfl := Option.some.inj h
    exact ⟨hxs, rest, rfl⟩
  · rintro ⟨hinner, rest, rfl⟩
    rw [beforeFirst, if_pos (by simp), (span_mark hinner rest).1]

/-- what stands before the last mark -/
theorem beforeLast_eq_some :
    beforeLast mark cs = some inner ↔ ∃ rest, mark ∉ rest ∧ cs = inner ++ mark :: rest := by
  have hcut : ∀ xs rest : List Char, mark ∉ rest → beforeLast mark (xs ++ mark :: rest) = some xs := by
    intro xs rest hrest
    have hrev : (xs ++ mark :: rest).reverse = rest.reverse ++ mark :: xs.reverse := by simp
    rw [beforeLast, if_pos (by simp), hrev, (span_mark (by simpa using hrest) _).2]
    simp
  constructor
  · intro h
    have hmem : mark ∈ cs.reverse := by
      by_contra hmem
      rw [beforeLast, if_neg (by simpa using hmem)] at h
      cases h
    obtain ⟨xs, rest, hcs, hxs⟩ := List.eq_append_cons_of_mem hmem
    have hcs : cs = rest.reverse ++ mark :: xs.reverse := by
      rw [← List.reverse_reverse cs, hcs]
      simp
    rw [hcs, hcut _ _ (by simpa using hxs)] at h
    obtain rfl := Option.some.inj h
    exact ⟨xs.reverse, by simpa using hxs, hcs⟩
  · rintro ⟨rest, hrest, rfl⟩
    exact hcut inner rest hrest

end Cutting

/-! ## Lists in text -/

/-- the items in order, each written in one of the ways of `R`, with a mark between any two and blanks around each -/
inductive Listed {α : Type} (mark : Char) (R : α → List Char → Prop) : List α → List Char → Prop where
  | single {x : α} {text before after : List Char} (h : R x text) (hb : Blanks before) (ha : Blanks after) :
      Listed mark R [x] (before ++ text ++ after)
  | cons {x : α} {xs : List α} {text before after rest : List Char} (h : R x text) (hb : Blanks before)
      (ha : Blanks after) (hrest : Listed mark R xs rest) :
      Listed mark R (x :: xs) (before ++ text ++ after ++ mark :: rest)

namespace Listed

variable {α β : Type} {mark : Char} {R : α → List Char → Prop} {xs : List α} {text : List Char}

theorem mem_pad {before after : List Char} (hb : Blanks before) (ha : Blanks after) {c : Char}
    (hc : c ∈ before ++ text ++ after) : isBlank c = true ∨ c ∈ text := by
  rcases List.mem_append.1 hc with hc | hc
  · exact (List.mem_append.1 hc).imp (hb c) id
  · exact Or.inl (ha c hc)

/-- a list in text holds its items, marks and blanks -/
theorem mem (h : Listed mark R xs text) {c : Char} (hc : c ∈ text) :
    c = mark ∨ isBlank c = true ∨ ∃ x ∈ xs, ∃ t, R x t ∧ c ∈ t := by
  induction h with
  | single h hb ha =>
    exact Or.inr ((mem_pad hb ha hc).imp id fun hc => ⟨_, List.mem_cons_self, _, h, hc⟩)
  | cons h hb ha _ ih =>
    rcases List.mem_append.1 hc with hc | hc
    · exact Or.inr ((mem_pad hb ha hc).imp id fun hc => ⟨_, List.mem_cons_self, _, h, hc⟩)
    · rcases List.mem_cons.1 hc with hc | hc
      · exact Or.inl hc
      · exact (ih hc).imp id (Or.imp id fun ⟨x, hx, ht⟩ => ⟨x, List.mem_cons_of_mem _ hx, ht⟩)

theorem notMem (h : Listed mark R xs text) {c : Char} (hmark : c ≠ mark) (hc : c ∈ marks)
    (hitems : ∀ x ∈ xs, ∀ t, R x t → c ∉ t) : c ∉ text := by
  intro hmem
  rcases h.mem hmem with hm | hblank | ⟨x, hx, t, ht, hct⟩
  · exact hmark hm
  · rw [isBlank_of_mark hc] at hblank
    cases hblank
  · exact hitems x hx t ht hct

/-- **Cutting at the marks gives the items back**, by whatever reads an item from its trimmed text. -/
theorem map_splitOn {f : List Char → β} {g : α → β} (h : Listed mark R xs text) (hmark : mark ∈ marks)
    (hread : ∀ x ∈ xs, ∀ t, R x t → mark ∉ t ∧ f (trim t) = g x) :
    (text.splitOn mark).map (fun piece => f (trim piece)) = xs.map g := by
  have hpiece : ∀ {x : α} {t before after : List Char}, Blanks before → Blanks after → R x t → x ∈ xs →
      (before ++ t ++ after).splitOn mark = [before ++ t ++ after] ∧ f (trim (before ++ t ++ after)) = g x := by
    intro x t before after hb ha ht hx
    obtain ⟨hnot, hf⟩ := hread x hx t ht
    refine ⟨List.splitOn_eq_singleton fun hm => ?_, by rw [trim_pad hb ha, hf]⟩
    rcases mem_pad hb ha hm with hblank | hm
    · rw [isBlank_of_mark hmark] at hblank
      cases hblank
    · exact hnot hm
  induction h with
  | single h hb ha =>
    obtain ⟨hsplit, hf⟩ := hpiece hb ha h List.mem_cons_self
    rw [hsplit, List.map_singleton, hf, List.map_singleton]
  | cons h hb ha _ ih =>
    obtain ⟨hsplit, hf⟩ := hpiece hb ha h List.mem_cons_self
    rw [List.splitOn_append_cons_self, hsplit, List.singleton_append, List.map_cons, hf, List.map_cons,
      ih (fun x hx => hread x (List.mem_cons_of_mem _ hx)) fun hb ha ht hx => hpiece hb ha ht (List.mem_cons_of_mem _ hx)]

theorem pad {before : List Char} (hb : Blanks before) (h : Listed mark R xs text) : Listed mark R xs (before ++ text) := by
  cases h with
  | single h hfirst ha =>
    rw [← List.append_assoc, ← List.append_assoc]
    exact .single h (hb.append hfirst) ha
  | cons h hfirst ha hrest =>
    rw [← List.append_assoc, ← List.append_assoc, ← List.append_assoc]
    exact .cons h (hb.append hfirst) ha hrest

/-- texts with a separator between any two; the separator may have blanks around its mark -/
theorem intercalate {before after : List Char} (hb : Blanks before) (ha : Blanks after) {f : α → List Char}
    (hf : ∀ x ∈ xs, R x (f x)) (hne : xs ≠ []) :
    Listed mark R xs ((before ++ mark :: after).intercalate (xs.map f)) := by
  have hnone : Blanks [] := fun c hc => by cases hc
  induction xs with
  | nil => exact absurd rfl hne
  | cons x xs ih =>
    have hx := hf x List.mem_cons_self
    cases xs with
    | nil =>
      have hone : Listed mark R [x] ([] ++ f x ++ []) := .single hx hnone hnone
      simpa using hone
    | cons y ys =>
      have hrest := (ih (fun z hz => hf z (List.mem_cons_of_mem _ hz)) (by simp)).pad ha
      simpa using Listed.cons hx hnone hb hrest

end Listed

end Refutation.Text
