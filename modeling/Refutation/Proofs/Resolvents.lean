/-
What a resolvent consists of.

`mem_resolvents` lists the resolvents of two clauses: one for each pair of clashing literals whose arguments unify.
`mem_resolventClause` says which literals a resolvent has, and `resolventClause_sublist` that it repeats none and adds
none: it is a sublist of the literals of the parents, without the resolved pair, under the substitution. The shortcut for
the empty substitution and the early skip of literals already there do not show in either. `mem_literals_resolvent` says
that resolution makes up nothing: the literals of a resolvent have the form of literals of the parents, and their
arguments are arguments of the parents.
-/
import Mathlib.Tactic
import Refutation.Proofs.CompleteUnifier
import Refutation.Resolvent

namespace Refutation

/-! ## The literals of a resolvent -/

/-- induction along `eraseDups`: what is left after the first item is the tail without its copies -/
theorem eraseDups_induction {α : Type} [BEq α] {P : List α → Prop} (nil : P [])
    (cons : ∀ a as, P (as.filter fun b => !b == a) → P (a :: as)) (as : List α) : P as := by
  induction hn : as.length using Nat.strong_induction_on generalizing as with
  | _ n ih =>
    cases as with
    | nil => exact nil
    | cons a as =>
      have hlt : (as.filter fun b => !b == a).length < n := by
        have := List.length_filter_le (fun b => !b == a) as
        simp only [List.length_cons] at hn
        omega
      exact cons a as (ih _ hlt _ rfl)

theorem eraseDups_sublist {α : Type} [BEq α] (as : List α) : as.eraseDups.Sublist as := by
  induction as using eraseDups_induction with
  | nil => simp
  | cons a as ih =>
    rw [List.eraseDups_cons]
    exact (ih.trans List.filter_sublist).cons_cons a

theorem nodup_eraseDups {α : Type} [BEq α] [LawfulBEq α] (as : List α) : as.eraseDups.Nodup := by
  induction as using eraseDups_induction with
  | nil => simp
  | cons a as ih =>
    rw [List.eraseDups_cons, List.nodup_cons]
    exact ⟨by simp [List.mem_eraseDups], ih⟩

theorem addNew_cons (known : List Literal) (l : Literal) (new : List Literal) :
    addNew known (l :: new) = addNew (if l ∈ known then known else known ++ [l]) new := rfl

theorem addNew_sublist (known new : List Literal) : (addNew known new).Sublist (known ++ new) := by
  induction new generalizing known with
  | nil => simp [addNew]
  | cons l new ih =>
    rw [addNew_cons]
    refine (ih _).trans ?_
    split_ifs
    · exact (List.Sublist.refl known).append (List.sublist_cons_self l new)
    · rw [List.append_assoc]
      exact List.Sublist.refl _

theorem mem_addNew {known new : List Literal} {l : Literal} : l ∈ addNew known new ↔ l ∈ known ∨ l ∈ new := by
  induction new generalizing known with
  | nil => simp [addNew]
  | cons m new ih =>
    rw [addNew_cons, ih, List.mem_cons]
    split_ifs with hm
    · constructor
      · exact fun h => h.imp_right Or.inr
      · rintro (h | rfl | h)
        · exact Or.inl h
        · exact Or.inl hm
        · exact Or.inr h
    · rw [List.mem_append, List.mem_singleton, or_assoc]

namespace Substitution

theorem lookup_of_isEmpty {s : Substitution} (h : s.isEmpty = true) (x : String) : s.lookup x = none := by
  simp only [isEmpty] at h
  simp only [lookup, Std.ExtTreeMap.isEmpty_iff.1 h, Std.ExtTreeMap.getElem?_empty]

theorem apply_of_lookup {s : Substitution} (h : ∀ x, s.lookup x = none) (t : Term) : s.apply t = t := by
  cases t with
  | const a => rfl
  | var x => simp [apply, h x]

end Substitution

theorem Literal.apply_of_lookup {s : Substitution} (h : ∀ x, s.lookup x = none) (l : Literal) : l.apply s = l := by
  obtain ⟨positive, predicate, args⟩ := l
  have hid : s.apply = id := funext (Substitution.apply_of_lookup h)
  simp [Literal.apply, Atom.apply, hid]

theorem Clause.literals_apply (s : Substitution) (c : Clause) :
    (c.apply s).literals = c.literals.map (Literal.apply s) := by
  simp only [Clause.apply]
  split_ifs with h
  · have hid : Literal.apply s = id := funext (Literal.apply_of_lookup (Substitution.lookup_of_isEmpty h))
    simp [hid]
  · rfl

/-- the literals of two clauses that are left when a pair is resolved away -/
def sideLiterals (c : Clause) (i : Nat) (d : Clause) (j : Nat) : List Literal :=
  c.literals.eraseIdx i ++ d.literals.eraseIdx j

theorem resolventClause_sublist (c : Clause) (i : Nat) (d : Clause) (j : Nat) (s : Substitution) :
    (resolventClause c i d j s).literals.Sublist ((sideLiterals c i d j).map (Literal.apply s)) := by
  simp only [resolventClause, Clause.dedup, Clause.literals_apply]
  exact (eraseDups_sublist _).trans ((addNew_sublist _ _).map _)

theorem mem_resolventClause {c d : Clause} {i j : Nat} {s : Substitution} {l : Literal} :
    l ∈ (resolventClause c i d j s).literals ↔ ∃ k ∈ sideLiterals c i d j, k.apply s = l := by
  simp only [resolventClause, Clause.dedup, Clause.literals_apply, List.mem_eraseDups, List.mem_map, mem_addNew,
    sideLiterals, List.mem_append]

/-! ## The resolvents of two clauses -/

theorem mem_resolvents {u : Unifier} {c d : Clause} {r : Resolvent} :
    r ∈ resolvents u c d ↔ ∃ i j l m s, c.literals[i]? = some l ∧ d.literals[j]? = some m ∧ l.clashes m = true ∧
      u.unify l.atom.args m.atom.args = .ok s ∧ r = ⟨resolventClause c i d j s, i, j, s⟩ := by
  simp only [resolvents, List.mem_flatMap, List.mem_filterMap, List.mem_zipIdx_iff_getElem?, Prod.exists, resolventAt?]
  constructor
  · rintro ⟨l, i, hl, m, j, hm, h⟩
    split_ifs at h with hclash
    split at h
    · rename_i s hs
      exact ⟨i, j, l, m, s, hl, hm, hclash, hs, by simpa using h.symm⟩
    · cases h
  · rintro ⟨i, j, l, m, s, hl, hm, hclash, hs, rfl⟩
    refine ⟨l, i, hl, m, j, hm, ?_⟩
    rw [if_pos hclash, hs]

/-- a resolvent has two literals less than its parents together -/
theorem size_resolvent {u : Unifier} {c d : Clause} {r : Resolvent} (h : r ∈ resolvents u c d) :
    r.clause.size + 2 ≤ c.size + d.size := by
  obtain ⟨i, j, l, m, s, hl, hm, -, -, rfl⟩ := mem_resolvents.1 h
  have hle := (resolventClause_sublist c i d j s).length_le
  obtain ⟨hi, -⟩ := List.getElem?_eq_some_iff.1 hl
  obtain ⟨hj, -⟩ := List.getElem?_eq_some_iff.1 hm
  rw [List.length_map, sideLiterals, List.length_append, List.length_eraseIdx_of_lt hi,
    List.length_eraseIdx_of_lt hj] at hle
  simp only [Clause.size]
  omega

/-- a resolvent repeats no literal -/
theorem nodup_resolvent {u : Unifier} {c d : Clause} {r : Resolvent} (h : r ∈ resolvents u c d) :
    r.clause.literals.Nodup := by
  obtain ⟨i, j, l, m, s, -, -, -, -, rfl⟩ := mem_resolvents.1 h
  exact nodup_eraseDups _

theorem eraseIdx_of_isUnit {p : Clause} (hp : p.isUnit = true) {i : Nat} {l : Literal} (h : p.literals[i]? = some l) :
    p.literals.eraseIdx i = [] := by
  obtain ⟨hi, -⟩ := List.getElem?_eq_some_iff.1 h
  have hlen : p.literals.length = 1 := by simpa [Clause.isUnit] using hp
  rw [← List.length_eq_zero_iff, List.length_eraseIdx_of_lt hi, hlen]

/-! ## Where the arguments come from -/

namespace Unifier

/-- an accepted pair is equal as written, or a variable `x` without a binding is bound to the other side; the right side is
taken only when the left one is no such variable -/
theorem singlePassStep_ok {s s' : Substitution} {a b : Term} (h : singlePassStep s a b = .ok s') :
    (a = b ∧ s' = s) ∨ ∃ x t, s.lookup x = none ∧ t ≠ .var x ∧ s' = s.bind x t ∧
      ((a = .var x ∧ t = b) ∨ (b = .var x ∧ t = a ∧ ∀ y, a = .var y → s.isBound y = true)) := by
  have hunbound : ∀ {u : Term} {x : String}, unbound? s u = some x → u = .var x ∧ s.lookup x = none := by
    intro u x hu
    cases u with
    | const a => cases hu
    | var y =>
      simp only [unbound?] at hu
      split_ifs at hu with hy
      obtain rfl := Option.some.inj hu
      exact ⟨rfl, by simpa [Substitution.isBound] using hy⟩
  simp only [singlePassStep] at h
  by_cases hab : a = b
  · rw [if_pos hab] at h
    exact Or.inl ⟨hab, (Except.ok.inj h).symm⟩
  · rw [if_neg hab] at h
    split at h
    · rename_i x hx
      obtain ⟨rfl, hfree⟩ := hunbound hx
      exact Or.inr ⟨x, b, hfree, Ne.symm hab, (Except.ok.inj h).symm, Or.inl ⟨rfl, rfl⟩⟩
    · rename_i y hleft hy
      obtain ⟨rfl, hfree⟩ := hunbound hy
      refine Or.inr ⟨y, a, hfree, hab, (Except.ok.inj h).symm, Or.inr ⟨rfl, rfl, ?_⟩⟩
      rintro z rfl
      simpa [unbound?] using hleft
    · cases h

/-- variables of the two lists are bound to terms of the two lists -/
theorem mem_of_lookup {u : Unifier} {left right : List Term} {s : Substitution} (h : u.unify left right = .ok s)
    {x : String} {t : Term} (hx : s.lookup x = some t) : .var x ∈ left ++ right ∧ t ∈ left ++ right := by
  cases u with
  | singlePass =>
    simp only [unify] at h
    split_ifs at h
    refine overPairs_induction
      (I := fun _ s => ∀ x t, s.lookup x = some t → .var x ∈ left ++ right ∧ t ∈ left ++ right) ?_ (by simp) h x t hx
    intro done s s' a b hab hI hs y w hy
    have ha : a ∈ left ++ right := List.mem_append_left _ (List.of_mem_zip hab).1
    have hb : b ∈ left ++ right := List.mem_append_right _ (List.of_mem_zip hab).2
    rcases singlePassStep_ok hs with ⟨-, rfl⟩ | ⟨z, v, -, -, rfl, hv⟩
    · exact hI y w hy
    · rw [Substitution.lookup_bind] at hy
      split_ifs at hy with hzy
      · subst hzy
        obtain rfl := Option.some.inj hy
        rcases hv with ⟨rfl, rfl⟩ | ⟨rfl, rfl, -⟩
        · exact ⟨ha, hb⟩
        · exact ⟨hb, ha⟩
      · exact hI y w hy
  | complete =>
    obtain ⟨-, s, hs, rfl⟩ := complete_ok h
    rw [Substitution.lookup_normalized, Option.map_eq_some_iff] at hx
    obtain ⟨w, hw, rfl⟩ := hx
    have hx := (hs.within x w hw).1
    exact ⟨hx, hs.walk_mem hx⟩

theorem apply_mem {u : Unifier} {left right : List Term} {s : Substitution} (h : u.unify left right = .ok s) (t : Term) :
    s.apply t = t ∨ s.apply t ∈ left ++ right := by
  cases t with
  | const a => exact Or.inl rfl
  | var x =>
    cases hx : s.lookup x with
    | none => exact Or.inl (by simp [Substitution.apply, hx])
    | some t =>
      refine Or.inr ?_
      simpa [Substitution.apply, hx] using (mem_of_lookup h hx).2

end Unifier

/-- the arguments of all literals -/
def Clause.terms (c : Clause) : List Term := c.literals.flatMap fun l => l.atom.args

theorem Clause.mem_terms {c : Clause} {t : Term} : t ∈ c.terms ↔ ∃ l ∈ c.literals, t ∈ l.atom.args := List.mem_flatMap

theorem mem_sideLiterals {c d : Clause} {i j : Nat} {l : Literal} (h : l ∈ sideLiterals c i d j) :
    l ∈ c.literals ++ d.literals := by
  rcases List.mem_append.1 h with h | h
  · exact List.mem_append_left _ (List.mem_of_mem_eraseIdx h)
  · exact List.mem_append_right _ (List.mem_of_mem_eraseIdx h)

theorem mem_terms_of_literal {c d : Clause} {k : Literal} (hk : k ∈ c.literals ++ d.literals) {t : Term}
    (ht : t ∈ k.atom.args) : t ∈ c.terms ++ d.terms := by
  rcases List.mem_append.1 hk with hk | hk
  · exact List.mem_append_left _ (Clause.mem_terms.2 ⟨k, hk, ht⟩)
  · exact List.mem_append_right _ (Clause.mem_terms.2 ⟨k, hk, ht⟩)

/-- the unifier of two literals of the parents sends the terms of the parents to terms of theirs -/
theorem apply_mem_terms {u : Unifier} {c d : Clause} {i j : Nat} {l m : Literal} {s : Substitution}
    (hl : c.literals[i]? = some l) (hm : d.literals[j]? = some m) (hs : u.unify l.atom.args m.atom.args = .ok s)
    {t : Term} (ht : t ∈ c.terms ++ d.terms) : s.apply t ∈ c.terms ++ d.terms := by
  rcases Unifier.apply_mem hs t with he | he
  · rwa [he]
  · rcases List.mem_append.1 he with he | he
    · exact mem_terms_of_literal (List.mem_append_left _ (List.mem_of_getElem? hl)) he
    · exact mem_terms_of_literal (List.mem_append_right _ (List.mem_of_getElem? hm)) he

/-- a literal of a resolvent has sign, predicate and arity of a literal of the parents, and arguments of theirs -/
theorem mem_literals_resolvent {u : Unifier} {c d : Clause} {r : Resolvent} (h : r ∈ resolvents u c d) {k : Literal}
    (hk : k ∈ r.clause.literals) :
    ∃ l ∈ c.literals ++ d.literals, k.positive = l.positive ∧ k.atom.predicate = l.atom.predicate ∧
      k.atom.args.length = l.atom.args.length ∧ ∀ t ∈ k.atom.args, t ∈ c.terms ++ d.terms := by
  obtain ⟨i, j, l, m, s, hl, hm, -, hs, rfl⟩ := mem_resolvents.1 h
  obtain ⟨n, hn, rfl⟩ := mem_resolventClause.1 hk
  have hn := mem_sideLiterals hn
  refine ⟨n, hn, rfl, rfl, by simp [Literal.apply, Atom.apply], fun t ht => ?_⟩
  obtain ⟨t, hold, rfl⟩ := List.mem_map.1 ht
  exact apply_mem_terms hl hm hs (mem_terms_of_literal hn hold)

namespace PairSelection

theorem resolvents_subset (p : PairSelection) (u : Unifier) (c d : Clause) :
    p.resolvents u c d ⊆ Refutation.resolvents u c d := by
  cases p with
  | firstMatch =>
    rw [resolvents_firstMatch]
    exact List.take_subset 1 _
  | all => exact List.Subset.refl _

/-- two clauses with a resolvent contribute one -/
theorem exists_mem_resolvents (p : PairSelection) {u : Unifier} {c d : Clause} {r : Resolvent}
    (h : r ∈ Refutation.resolvents u c d) : ∃ r', r' ∈ p.resolvents u c d := by
  cases p with
  | firstMatch =>
    rw [resolvents_firstMatch]
    cases hrs : Refutation.resolvents u c d with
    | nil => simp [hrs] at h
    | cons r' rs => exact ⟨r', by simp⟩
  | all => exact ⟨r, h⟩

end PairSelection

end Refutation
