/-
Well-formed clauses: predicates are plain names, and an argument is what its name shows.

Such clauses are readable, and unlike readable clauses they can be told from the empty clause too: no literal is written
as the empty clause is. So the keys of well-formed clauses agree exactly when the clauses do (`WellFormed.key_eq_iff`).
Resolvents of well-formed clauses are well formed (`WellFormed.resolvent`).
-/
import Refutation.Proofs.Renaming
import Refutation.Proofs.UniqueText

namespace Refutation

/-- letters, digits and underscores, at least one of them -/
def Text.IsName (name : String) : Prop := name.toList ≠ [] ∧ ∀ c ∈ name.toList, Text.isNameChar c = true

/-- the term is what its name shows, and the name is neither empty nor hides a blank or a mark -/
structure Term.WellFormed (t : Term) : Prop extends Term.Readable t where
  nonempty : t.name ≠ ""
  trimmed : Text.trim t.name.toList = t.name.toList

/-- predicates are names and arguments are well formed -/
structure Clause.WellFormed (c : Clause) : Prop where
  predicates : ∀ l ∈ c.literals, Text.IsName l.atom.predicate
  terms : ∀ t ∈ c.terms, t.WellFormed

instance (name : String) : Decidable (Text.IsName name) :=
  decidable_of_iff (name.toList ≠ [] ∧ name.toList.all Text.isNameChar = true) (by rw [Text.IsName, List.all_eq_true])

instance (t : Term) : Decidable t.WellFormed :=
  decidable_of_iff
    (',' ∉ t.name.toList ∧ ')' ∉ t.name.toList ∧ '∨' ∉ t.name.toList ∧ Term.ofName t.name = t ∧ t.name ≠ "" ∧
      Text.trim t.name.toList = t.name.toList)
    ⟨fun ⟨comma, bracket, or, kind, nonempty, trimmed⟩ => ⟨⟨comma, bracket, or, kind⟩, nonempty, trimmed⟩,
      fun h => ⟨h.comma, h.bracket, h.or, h.kind, h.nonempty, h.trimmed⟩⟩

instance (c : Clause) : Decidable c.WellFormed :=
  decidable_of_iff ((∀ l ∈ c.literals, Text.IsName l.atom.predicate) ∧ ∀ t ∈ c.terms, t.WellFormed)
    ⟨fun ⟨predicates, terms⟩ => ⟨predicates, terms⟩, fun h => ⟨h.predicates, h.terms⟩⟩

/-! ## Names -/

namespace Text.IsName

variable {name : String}

theorem notMem (h : IsName name) {c : Char} (hc : isNameChar c = false) : c ∉ name.toList := by
  intro hmem
  rw [h.2 c hmem] at hc
  cases hc

end Text.IsName

theorem isNameChar_marks : Text.isNameChar '∨' = false ∧ Text.isNameChar '¬' = false ∧ Text.isNameChar '◻' = false := by
  decide +kernel

namespace Dedup.Same

variable {k : Dedup} {c d : Clause}

theorem refl (k : Dedup) (c : Clause) : k.Same c c := by
  cases k with
  | canonical => rfl
  | literalSet => exact fun _ => Iff.rfl

theorem symm (h : k.Same c d) : k.Same d c := by
  cases k with
  | canonical => exact Eq.symm h
  | literalSet => exact fun l => (h l).symm

theorem mem_iff (h : k.Same c d) (l : Literal) : l ∈ c.literals ↔ l ∈ d.literals := by
  cases k with
  | canonical =>
    obtain rfl : c = d := h
    exact Iff.rfl
  | literalSet => exact h l

theorem literals_eq_nil (h : k.Same c d) (hd : d.literals = []) : c.literals = [] := by
  refine List.eq_nil_iff_forall_not_mem.2 fun l hl => ?_
  rw [h.mem_iff, hd] at hl
  cases hl

end Dedup.Same

namespace Clause

variable {c d : Clause}

namespace WellFormed

theorem readable (hc : c.WellFormed) : c.Readable := by
  intro l hl
  have hname := hc.predicates l hl
  obtain ⟨hor, hnot, -⟩ := isNameChar_marks
  refine ⟨⟨hname.1, hname.notMem hor, fun hargs => ?_, fun _ => hname.2, fun t ht => ?_⟩, fun _ hhead => ?_⟩
  · rw [Formula.readAtom_name hname.2, String.ofList_toList, Atom.prop, ← hargs]
  · exact (hc.terms t (mem_terms.2 ⟨l, hl, ht⟩)).toReadable
  · exact hname.notMem hnot (List.mem_of_head? hhead)

/-- **Resolution keeps clauses well formed.** -/
theorem resolvent {u : Unifier} {r : Resolvent} (hc : c.WellFormed) (hd : d.WellFormed) (h : r ∈ resolvents u c d) :
    r.clause.WellFormed where
  predicates := by
    intro k hk
    obtain ⟨l, hl, -, hpredicate, -, -⟩ := mem_literals_resolvent h hk
    rw [hpredicate]
    exact (List.mem_append.1 hl).elim (hc.predicates l) (hd.predicates l)
  terms := by
    intro t ht
    obtain ⟨k, hk, htk⟩ := mem_terms.1 ht
    obtain ⟨-, -, -, -, -, hterms⟩ := mem_literals_resolvent h hk
    exact (List.mem_append.1 (hterms t htk)).elim (hc.terms t) (hd.terms t)

/-! ## Keys -/

/-- the key of a clause with literals is not that of the empty clause -/
theorem key_ne (hc : c.WellFormed) (hne : c.literals ≠ []) (k : Dedup) : k.key c ≠ k.key empty := by
  intro hkey
  obtain ⟨l, hl⟩ := List.exists_mem_of_ne_nil _ hne
  have hname := hc.predicates l hl
  rcases Dedup.key_eq_empty.1 hkey with rfl | hmimics
  · exact hne rfl
  · cases k with
    | canonical =>
      have hone : c.literals = [⟨true, Atom.prop emptyText⟩] := hmimics
      rw [hone, List.mem_singleton] at hl
      rw [hl] at hname
      exact hname.notMem isNameChar_marks.2.2 (by decide)
    | literalSet =>
      obtain ⟨-, hall⟩ := hmimics
      rw [hall l hl] at hname
      exact hname.1 (by decide)

/-- **One key, one clause** up to what the key leaves out, the empty clause included. -/
theorem key_eq_iff (hc : c.WellFormed) (hd : d.WellFormed) (k : Dedup) : k.key c = k.key d ↔ k.Same c d := by
  have hempty : ∀ {e : Clause}, e.literals = [] → e = empty := fun he => congrArg Clause.mk he
  by_cases hcl : c.literals = []
  · obtain rfl := hempty hcl
    by_cases hdl : d.literals = []
    · obtain rfl := hempty hdl
      exact iff_of_true rfl (Dedup.Same.refl k empty)
    · exact iff_of_false (Ne.symm (hd.key_ne hdl k)) fun h => hdl (h.symm.literals_eq_nil hcl)
  · by_cases hdl : d.literals = []
    · obtain rfl := hempty hdl
      exact iff_of_false (hc.key_ne hcl k) fun h => hcl (h.literals_eq_nil hdl)
    · exact Dedup.key_eq_iff hc.readable hd.readable hcl hdl

end WellFormed

/-! ## Renaming -/

theorem terms_rename (π : String → String) (c : Clause) : (c.rename π).terms = c.terms.map (Term.rename π) := by
  simp only [terms, rename, List.flatMap_map, List.map_flatMap]
  rfl

theorem WellFormed.rename {π : String → String} (hc : c.WellFormed) (hπ : ∀ x ∈ c.vars, (Term.var (π x)).WellFormed) :
    (c.rename π).WellFormed where
  predicates := by
    intro k hk
    obtain ⟨l, hl, rfl⟩ := List.mem_map.1 hk
    exact hc.predicates l hl
  terms := by
    intro u hu
    rw [terms_rename] at hu
    obtain ⟨t, ht, rfl⟩ := List.mem_map.1 hu
    cases t with
    | var x => exact hπ x (mem_vars.2 ht)
    | const a => exact hc.terms _ ht

end Clause

end Refutation
