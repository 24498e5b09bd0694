/-
Chains of bindings, and what following them to the end does.

`Chain s n t u` says that from `t`, following `n` bindings of `s`, one comes to `u` and stops there: `u` is a constant or
a variable without a binding. A chain never meets a variable twice, so it has no more links than there are bindings
(`Chain.le_size`) and the bound that `walk` is given is enough (`Chain.walk_eq`).

`Acyclic s`: there is a chain from every term. Binding a variable without a binding to another end of a chain keeps this
(`Acyclic.bind`) and redirects exactly the chains that ended in the variable (`Acyclic.walk_bind`). Applying the
normalised substitution once is walking (`apply_normalized`), and leads to no variable with a binding
(`Acyclic.lookup_normalized_ne`).
-/
import Mathlib.Data.List.Perm.Subperm
import Mathlib.Tactic
import Refutation.Substitution

namespace Refutation.Substitution

/-- following `n` bindings from the first term leads to the second, where it ends -/
inductive Chain (s : Substitution) : Nat → Term → Term → Prop where
  | const (a : String) : Chain s 0 (.const a) (.const a)
  | free {x : String} (h : s.lookup x = none) : Chain s 0 (.var x) (.var x)
  | link {x : String} {t u : Term} {n : Nat} (h : s.lookup x = some t) (rest : Chain s n t u) : Chain s (n + 1) (.var x) u

/-- from every term there is a chain -/
def Acyclic (s : Substitution) : Prop := ∀ t, ∃ n u, Chain s n t u

theorem isBound_iff {s : Substitution} {x : String} : s.isBound x = true ↔ ∃ t, s.lookup x = some t :=
  Option.isSome_iff_exists

/-! ## One chain -/

namespace Chain

variable {s : Substitution} {m n : Nat} {t u v : Term}

theorem unique (h1 : Chain s m t u) (h2 : Chain s n t v) : m = n ∧ u = v := by
  induction h1 generalizing n with
  | const a =>
    cases h2
    exact ⟨rfl, rfl⟩
  | free hx =>
    cases h2 with
    | free _ => exact ⟨rfl, rfl⟩
    | link hx' _ =>
      rw [hx] at hx'
      cases hx'
  | link hx _ ih =>
    cases h2 with
    | free hx' =>
      rw [hx] at hx'
      cases hx'
    | link hx' rest =>
      rw [hx] at hx'
      cases hx'
      obtain ⟨rfl, rfl⟩ := ih rest
      exact ⟨rfl, rfl⟩

/-- what holds of a term and passes along bindings holds at the end of the chain -/
theorem closed {P : Term → Prop} (hP : ∀ x t, s.lookup x = some t → P (.var x) → P t) (h : Chain s n t u) (ht : P t) :
    P u := by
  induction h with
  | const _ => exact ht
  | free _ => exact ht
  | link hx _ ih => exact ih (hP _ _ hx ht)

/-- the end of a chain is the end of its own chain -/
theorem ends (h : Chain s n t u) : Chain s 0 u u := by
  induction h with
  | const a => exact .const a
  | free hx => exact .free hx
  | link _ _ ih => exact ih

theorem lookup_end {x : String} (h : Chain s n t (.var x)) : s.lookup x = none := by
  cases h.ends with
  | free hx => exact hx

theorem walkFor_eq (h : Chain s n t u) {links : Nat} (hle : n ≤ links) : s.walkFor links t = u := by
  induction h generalizing links with
  | const a => cases links <;> rfl
  | free hx =>
    cases links with
    | zero => rfl
    | succ links => simp only [walkFor, hx]
  | link hx _ ih =>
    cases links with
    | zero => omega
    | succ links =>
      simp only [walkFor, hx]
      exact ih (by omega)

/-- the variables that a chain leaves behind: all bound, none met twice -/
theorem exists_visited (h : Chain s n t u) :
    ∃ xs : List String, xs.length = n ∧ xs.Nodup ∧ ∀ x ∈ xs, s.isBound x = true ∧ ∃ k ≤ n, Chain s k (.var x) u := by
  induction h with
  | const _ => exact ⟨[], rfl, List.nodup_nil, by simp⟩
  | free _ => exact ⟨[], rfl, List.nodup_nil, by simp⟩
  | @link x t u n hx rest ih =>
    obtain ⟨xs, hlen, hnodup, hxs⟩ := ih
    have hchain : Chain s (n + 1) (.var x) u := .link hx rest
    refine ⟨x :: xs, by simp [hlen], List.nodup_cons.2 ⟨fun hmem => ?_, hnodup⟩, fun y hy => ?_⟩
    · -- a second visit would start a chain of another length
      obtain ⟨_, k, hk, hagain⟩ := hxs x hmem
      have := (hchain.unique hagain).1
      omega
    · rcases List.mem_cons.1 hy with rfl | hy
      · exact ⟨isBound_iff.2 ⟨t, hx⟩, n + 1, le_rfl, hchain⟩
      · obtain ⟨hbound, k, hk, hky⟩ := hxs y hy
        exact ⟨hbound, k, by omega, hky⟩

/-- a chain has at most as many links as there are bindings -/
theorem le_size (h : Chain s n t u) : n ≤ s.size := by
  obtain ⟨xs, rfl, hnodup, hxs⟩ := h.exists_visited
  have hsub : xs ⊆ s.bindings.map Prod.fst := fun x hx => by
    obtain ⟨t, ht⟩ := isBound_iff.1 (hxs x hx).1
    exact List.mem_map.2 ⟨(x, t), mem_bindings.2 ht, rfl⟩
  have hle := (hnodup.subperm hsub).length_le
  rwa [List.length_map, length_bindings] at hle

theorem walk_eq (h : Chain s n t u) : s.walk t = u := h.walkFor_eq h.le_size

/-- a new binding of the variable `x` lengthens the chains that ended in `x` and leaves the others -/
theorem bind {x : String} {w : Term} (h : Chain s n t u) (hx : s.lookup x = none) (hw : Chain s 0 w w)
    (hne : w ≠ .var x) : ∃ k, Chain (s.bind x w) k t (if u = .var x then w else u) := by
  have hlookup : ∀ y, y ≠ x → (s.bind x w).lookup y = s.lookup y := fun y hy => by
    rw [lookup_bind, if_neg (Ne.symm hy)]
  have hw' : Chain (s.bind x w) 0 w w := by
    cases hw with
    | const a => exact .const a
    | @free y hy => exact .free (by rw [hlookup y (fun e => hne (by rw [e])), hy])
  induction h with
  | const a => exact ⟨0, by simpa using Chain.const a⟩
  | @free y hy =>
    by_cases hyx : y = x
    · subst hyx
      rw [if_pos rfl]
      exact ⟨1, .link (by rw [lookup_bind, if_pos rfl]) hw'⟩
    · rw [if_neg (fun e => hyx (Term.var.inj e))]
      exact ⟨0, .free (by rw [hlookup y hyx, hy])⟩
  | @link y t u n hy _ ih =>
    obtain ⟨k, hk⟩ := ih
    have hyx : y ≠ x := by
      rintro rfl
      rw [hx] at hy
      cases hy
    exact ⟨k + 1, .link (by rw [hlookup y hyx, hy]) hk⟩

end Chain

theorem walk_const (s : Substitution) (a : String) : s.walk (.const a) = .const a := (Chain.const a).walk_eq

/-- applying the normalised bindings once is following the bindings to the end -/
theorem apply_normalized (s : Substitution) (t : Term) : s.normalized.apply t = s.walk t := by
  cases t with
  | const a => exact (walk_const s a).symm
  | var x =>
    simp only [apply, lookup_normalized]
    cases hx : s.lookup x with
    | none => exact ((Chain.free hx).walk_eq).symm
    | some t => rfl

theorem isBound_normalized (s : Substitution) (x : String) : s.normalized.isBound x = s.isBound x := by
  rw [isBound, lookup_normalized, Option.isSome_map, isBound]

/-! ## Bindings without a cycle -/

theorem acyclic_empty : Acyclic empty := by
  intro t
  cases t with
  | var x => exact ⟨0, _, .free (lookup_empty x)⟩
  | const a => exact ⟨0, _, .const a⟩

namespace Acyclic

variable {s : Substitution}

theorem chain_walk (h : s.Acyclic) (t : Term) : ∃ n, Chain s n t (s.walk t) := by
  obtain ⟨n, u, hu⟩ := h t
  exact ⟨n, by rwa [hu.walk_eq]⟩

theorem lookup_walk (h : s.Acyclic) {t : Term} {x : String} (hx : s.walk t = .var x) : s.lookup x = none := by
  obtain ⟨n, hn⟩ := h.chain_walk t
  rw [hx] at hn
  exact hn.lookup_end

/-- the normalised bindings lead to ends of chains, so to no variable that has a binding -/
theorem lookup_normalized_ne (h : s.Acyclic) {x : String} (hx : s.normalized.isBound x = true) (y : String) :
    s.normalized.lookup y ≠ some (.var x) := by
  intro hy
  rw [isBound_normalized] at hx
  obtain ⟨t, ht⟩ := isBound_iff.1 hx
  rw [lookup_normalized] at hy
  obtain ⟨_, -, hwalk⟩ := Option.map_eq_some_iff.1 hy
  rw [h.lookup_walk hwalk] at ht
  cases ht

theorem ends_walk (h : s.Acyclic) (t : Term) : Chain s 0 (s.walk t) (s.walk t) := by
  obtain ⟨_, hn⟩ := h.chain_walk t
  exact hn.ends

/-- a map that respects every binding does not tell a term from the end of its chain -/
theorem map_walk {α : Type} (h : s.Acyclic) {f : Term → α} (hf : ∀ x t, s.lookup x = some t → f (.var x) = f t)
    (t : Term) : f (s.walk t) = f t := by
  obtain ⟨_, hn⟩ := h.chain_walk t
  exact hn.closed (P := fun u => f u = f t) (fun x u hx hxt => by rw [← hf x u hx, hxt]) rfl

theorem walk_mem (h : s.Acyclic) {T : List Term} (hT : ∀ x t, s.lookup x = some t → t ∈ T) {t : Term} (ht : t ∈ T) :
    s.walk t ∈ T := by
  obtain ⟨_, hn⟩ := h.chain_walk t
  exact hn.closed (P := (· ∈ T)) (fun x u hx _ => hT x u hx) ht

theorem bind (h : s.Acyclic) {x : String} {w : Term} (hx : s.lookup x = none) (hw : Chain s 0 w w)
    (hne : w ≠ .var x) : (s.bind x w).Acyclic := by
  intro t
  obtain ⟨n, u, hu⟩ := h t
  obtain ⟨k, hk⟩ := hu.bind hx hw hne
  exact ⟨k, _, hk⟩

theorem walk_bind (h : s.Acyclic) {x : String} {w : Term} (hx : s.lookup x = none) (hw : Chain s 0 w w)
    (hne : w ≠ .var x) (t : Term) : (s.bind x w).walk t = if s.walk t = .var x then w else s.walk t := by
  obtain ⟨_, hn⟩ := h.chain_walk t
  obtain ⟨_, hk⟩ := hn.bind hx hw hne
  exact hk.walk_eq

end Acyclic

end Refutation.Substitution
