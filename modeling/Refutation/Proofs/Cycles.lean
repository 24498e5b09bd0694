/-
Cycles of bindings: what having none is worth, and why the complete unifier never makes one.

Following bindings ends from everywhere exactly when no variable leads back to itself (`acyclic_iff_noCycle`). On such
bindings normalising comes to an end and leaves chains of at most one link: what is bound to is not bound itself
(`Acyclic.solved_normalized`), so one application, a walk before and a walk after give the same term, and normalising again
changes nothing (`normalized_resolves`).

The loop of the complete unifier starts without bindings. At each pair it binds the end of a chain to the end of another
chain, if anything (`completeStep_binds`). So a binding is never replaced (`overPairs_complete_extends`), and no cycle is
closed, however bindings of left and right variables alternate (`complete_loop_acyclic`).
-/
import Refutation.Proofs.SinglePass

namespace Refutation

namespace Substitution

variable {s : Substitution} {x y : String} {t u : Term} {n : Nat}

/-- the first variable is bound to the second -/
def Leads (s : Substitution) (x y : String) : Prop := s.lookup x = some (.var y)

/-- following one or more bindings from a variable never leads back to it -/
def NoCycle (s : Substitution) : Prop := ∀ x, ¬ Relation.TransGen s.Leads x x

/-! ## Chains and cycles -/

/-- a chain goes on from the term that its variable is bound to -/
theorem Chain.next (h : Chain s n (.var x) u) (hx : s.lookup x = some t) : ∃ m < n, Chain s m t u := by
  cases h with
  | free hfree =>
    rw [hx] at hfree
    cases hfree
  | @link _ t' _ m hlink rest =>
    rw [hx] at hlink
    obtain rfl := Option.some.inj hlink
    exact ⟨m, Nat.lt_succ_self m, rest⟩

/-- a chain gets shorter with every variable that it leads to -/
theorem Chain.follow (h : Chain s n (.var x) u) (hxy : Relation.TransGen s.Leads x y) :
    ∃ m < n, Chain s m (.var y) u := by
  induction hxy with
  | single hlink => exact h.next hlink
  | tail _ hlink ih =>
    obtain ⟨m, hm, hchain⟩ := ih
    obtain ⟨k, hk, hrest⟩ := hchain.next hlink
    exact ⟨k, hk.trans hm, hrest⟩

/-- chains from the variables with a binding are all that is asked for -/
theorem acyclic_iff_bound : s.Acyclic ↔ ∀ x, s.isBound x = true → ∃ n u, Chain s n (.var x) u := by
  constructor
  · intro h x _
    exact h (.var x)
  · intro h t
    cases t with
    | const a => exact ⟨0, _, .const a⟩
    | var x =>
      cases hx : s.lookup x with
      | none => exact ⟨0, _, .free hx⟩
      | some t => exact h x (isBound_iff.2 ⟨t, hx⟩)

theorem finite_bound (s : Substitution) : Finite {x // s.isBound x = true} := by
  have hsub : {x | s.isBound x = true} ⊆ {x | x ∈ s.bindings.map Prod.fst} := by
    intro x hx
    obtain ⟨t, ht⟩ := isBound_iff.1 hx
    exact List.mem_map.2 ⟨(x, t), mem_bindings.2 ht, rfl⟩
  exact ((List.finite_toSet _).subset hsub).to_subtype

/-- without a cycle one comes from a variable with a binding to ever fewer others -/
theorem NoCycle.wellFounded (h : s.NoCycle) :
    WellFounded fun y x : {x // s.isBound x = true} => Relation.TransGen s.Leads x.1 y.1 := by
  have hfinite := s.finite_bound
  have htrans : IsTrans {x // s.isBound x = true} fun y x => Relation.TransGen s.Leads x.1 y.1 :=
    ⟨fun _ _ _ hba hcb => hcb.trans hba⟩
  have hirrefl : Std.Irrefl fun y x : {x // s.isBound x = true} => Relation.TransGen s.Leads x.1 y.1 :=
    ⟨fun x hx => h x.1 hx⟩
  exact Finite.wellFounded_of_trans_of_irrefl _

/-- **Following bindings ends from everywhere exactly when there is no cycle.** -/
theorem acyclic_iff_noCycle : s.Acyclic ↔ s.NoCycle := by
  constructor
  · intro h x hcycle
    -- the chain from `x` would be shorter than itself
    obtain ⟨n, u, hchain⟩ := h (.var x)
    obtain ⟨m, hm, hagain⟩ := hchain.follow hcycle
    have hsame := (hchain.unique hagain).1
    omega
  · intro h
    refine acyclic_iff_bound.2 fun x hx => ?_
    suffices hall : ∀ x : {x // s.isBound x = true}, ∃ n u, Chain s n (.var x.1) u from hall ⟨x, hx⟩
    intro x
    induction x using h.wellFounded.induction with
    | _ x ih =>
      obtain ⟨t, ht⟩ := isBound_iff.1 x.2
      cases t with
      | const a => exact ⟨1, _, .link ht (.const a)⟩
      | var y =>
        cases hy : s.lookup y with
        | none => exact ⟨1, _, .link ht (.free hy)⟩
        | some t =>
          obtain ⟨n, u, hrest⟩ := ih ⟨y, isBound_iff.2 ⟨t, hy⟩⟩ (.single ht)
          exact ⟨n + 1, u, .link ht hrest⟩

/-- a walk follows at most as many bindings as there are -/
theorem Acyclic.chain_walk_le (h : s.Acyclic) (t : Term) : ∃ n ≤ s.size, Chain s n t (s.walk t) := by
  obtain ⟨n, hn⟩ := h.chain_walk t
  exact ⟨n, hn.le_size, hn⟩

/-! ## Normalising -/

theorem Acyclic.solved_normalized (h : s.Acyclic) : s.normalized.Solved := by
  intro x hx y
  exact h.lookup_normalized_ne hx y

/-- in solved form a chain has at most one link -/
theorem Solved.chain_le_one (hs : s.Solved) (h : Chain s n t u) : n ≤ 1 := by
  cases h with
  | const _ => exact Nat.zero_le 1
  | free _ => exact Nat.zero_le 1
  | link hx rest =>
    have hlast := ((hs.ends hx).unique rest).1
    omega

/-- **Normalising resolves chains.** If following bindings ends from every variable that has one, the normalised bindings
are for the same variables; one application of them leads a term to where following the old bindings ends, and so does
following the new ones, over one link at most; no variable that has a binding occurs among the terms bound to; and
normalising again changes nothing. -/
theorem normalized_resolves (h : ∀ x, s.isBound x = true → ∃ n u, Chain s n (.var x) u) :
    (∀ x, s.normalized.isBound x = s.isBound x) ∧
      (∀ t, (∃ n, Chain s n t (s.walk t)) ∧ s.normalized.apply t = s.walk t ∧ s.normalized.walk t = s.walk t ∧
        ∃ n ≤ 1, Chain s.normalized n t (s.walk t)) ∧
      (∀ x, s.normalized.isBound x = true → ∀ y, s.normalized.lookup y ≠ some (.var x)) ∧
      s.normalized.normalized = s.normalized := by
  have hacyclic : s.Acyclic := acyclic_iff_bound.2 h
  have hsolved : s.normalized.Solved := hacyclic.solved_normalized
  refine ⟨s.isBound_normalized, fun t => ⟨hacyclic.chain_walk t, s.apply_normalized t, ?_, ?_⟩, hsolved,
    hsolved.normalized_eq⟩
  · calc s.normalized.walk t = s.normalized.apply t := hsolved.walk_eq t
      _ = s.walk t := s.apply_normalized t
  · obtain ⟨n, hn⟩ := hsolved.chain_apply t
    rw [s.apply_normalized t] at hn
    exact ⟨n, hsolved.chain_le_one hn, hn⟩

/-- two chains that meet in `y` and go on over `w` to a constant, and a chain that ends in a variable -/
def meetingChains : Substitution :=
  ((((empty.bind "w" (.const "A")).bind "x" (.var "y")).bind "y" (.var "w")).bind "z" (.var "y")).bind "v" (.var "u")

theorem normalized_resolves_meetingChains :
    (∀ x, meetingChains.isBound x = true → ∃ n u, Chain meetingChains n (.var x) u) ∧
      meetingChains.apply (.var "x") = .var "y" ∧ meetingChains.normalized.apply (.var "x") = .const "A" ∧
      meetingChains.normalized.walk (.var "z") = .const "A" ∧ meetingChains.normalized.apply (.var "v") = .var "u" ∧
      meetingChains.normalized.normalized = meetingChains.normalized := by
  have hw : Chain meetingChains 1 (.var "w") (.const "A") := .link rfl (.const "A")
  have hy : Chain meetingChains 2 (.var "y") (.const "A") := .link rfl hw
  have hx : Chain meetingChains 3 (.var "x") (.const "A") := .link rfl hy
  have hz : Chain meetingChains 3 (.var "z") (.const "A") := .link rfl hy
  have hv : Chain meetingChains 1 (.var "v") (.var "u") := .link rfl (.free rfl)
  have hall : ∀ x, meetingChains.isBound x = true → ∃ n u, Chain meetingChains n (.var x) u := by
    intro x hbound
    obtain ⟨t, ht⟩ := isBound_iff.1 hbound
    have hmem : x ∈ ["v", "w", "x", "y", "z"] := List.mem_map_of_mem (f := Prod.fst) (mem_bindings.2 ht)
    fin_cases hmem
    · exact ⟨_, _, hv⟩
    · exact ⟨_, _, hw⟩
    · exact ⟨_, _, hx⟩
    · exact ⟨_, _, hy⟩
    · exact ⟨_, _, hz⟩
  obtain ⟨-, hterm, -, hagain⟩ := normalized_resolves hall
  refine ⟨hall, rfl, ?_, ?_, ?_, hagain⟩
  · rw [(hterm _).2.1, hx.walk_eq]
  · rw [(hterm _).2.2.1, hz.walk_eq]
  · rw [(hterm _).2.1, hv.walk_eq]

end Substitution

/-! ## The loop of the complete unifier -/

namespace Unifier

open Substitution

variable {s s' : Substitution} {a b : Term} {left right : List Term} {done done' : List (Term × Term)}

/-- a pair leaves the bindings as they are, or binds a variable that has none to another term -/
theorem completeStep_binds (hs : s.Acyclic) (h : completeStep s a b = .ok s') :
    s' = s ∨ ∃ x w, s.isBound x = false ∧ w ≠ .var x ∧ s' = s.bind x w := by
  rcases completeStep_ok h with ⟨-, rfl⟩ | ⟨x, w, hne, rfl, hends⟩
  · exact Or.inl rfl
  · obtain ⟨hx, -⟩ := free_of_ends hs hends
    exact Or.inr ⟨x, w, by rw [isBound, hx, Option.isSome_none], hne, rfl⟩

theorem completeStep_extends (hs : s.Acyclic) (h : completeStep s a b = .ok s') : s.Extends s' := by
  rcases completeStep_binds hs h with rfl | ⟨x, w, hx, -, rfl⟩
  · exact fun _ _ hy => hy
  · exact extends_bind (by simpa [isBound] using hx) w

/-- a pass of the complete unifier replaces no binding -/
theorem overPairs_complete_extends {pairs : List (Term × Term)} (hs : s.Acyclic)
    (h : overPairs completeStep s pairs = .ok s') : s.Extends s' := by
  refine (overPairs_induction (I := fun _ t => s.Extends t ∧ t.Acyclic) ?_ ⟨fun _ _ hx => hx, hs⟩ h).1
  intro _ t t' a b _ ⟨hext, ht⟩ hstep
  exact ⟨fun x u hx => completeStep_extends ht hstep x u (hext x u hx), completeStep_acyclic ht hstep⟩

/-- a point of the loop over the pairs of two lists: the pairs `done` are behind, and the bindings `s` have been made -/
structure LoopAt (left right : List Term) (done : List (Term × Term)) (s : Substitution) : Prop where
  behind : done <+: left.zip right
  made : overPairs completeStep .empty done = .ok s

namespace LoopAt

theorem acyclic (h : LoopAt left right done s) : s.Acyclic :=
  (solves_of_overPairs h.behind.subset h.made).acyclic

/-- the bindings at a later point are those of a pass over the pairs in between -/
theorem pass {between : List (Term × Term)} (h : LoopAt left right done s) (h' : LoopAt left right (done ++ between) s') :
    overPairs completeStep s between = .ok s' := by
  have hmade := h'.made
  rw [overPairs_append, h.made] at hmade
  exact hmade

theorem step (h : LoopAt left right done s) (h' : LoopAt left right (done ++ [(a, b)]) s') :
    completeStep s a b = .ok s' := by
  have hpass := h.pass h'
  rw [overPairs] at hpass
  cases hstep : completeStep s a b with
  | error e => rw [hstep] at hpass; cases hpass
  | ok t =>
    rw [hstep] at hpass
    exact hpass

theorem extends_later (h : LoopAt left right done s) (h' : LoopAt left right done' s') (hlater : done <+: done') :
    s.Extends s' := by
  obtain ⟨between, rfl⟩ := hlater
  exact overPairs_complete_extends h.acyclic (h.pass h')

end LoopAt

/-- **The complete unifier never builds a cycle.** At every point of its loop no variable leads back to itself, and from
every term a walk ends in a constant or a variable without a binding, over at most as many links as there are bindings. One
pair adds no binding, or one of a variable that has none, to another term; so a binding that has been made is there at every
later point. The final normalisation, too, only follows chains that end. -/
theorem complete_loop_acyclic (left right : List Term) :
    (∀ done s, LoopAt left right done s →
      s.NoCycle ∧ (∀ t, ∃ n ≤ s.size, s.Chain n t (s.walk t)) ∧
        ∀ a b s', LoopAt left right (done ++ [(a, b)]) s' →
          s' = s ∨ ∃ x w, s.isBound x = false ∧ w ≠ .var x ∧ s' = s.bind x w) ∧
      (∀ done done' s s', LoopAt left right done s → LoopAt left right done' s' → done <+: done' → s.Extends s') ∧
      ∀ σ, complete.unify left right = .ok σ →
        ∃ s, LoopAt left right (left.zip right) s ∧ σ = s.normalized ∧
          ∀ x, s.isBound x = true → ∃ n ≤ s.size, ∃ u, s.Chain n (.var x) u ∧ σ.lookup x = some u := by
  refine ⟨?_, ?_, ?_⟩
  · intro done s hat
    refine ⟨acyclic_iff_noCycle.1 hat.acyclic, hat.acyclic.chain_walk_le, ?_⟩
    intro a b s' hat'
    exact completeStep_binds hat.acyclic (hat.step hat')
  · intro done done' s s' hat hat' hlater
    exact hat.extends_later hat' hlater
  · intro σ hσ
    obtain ⟨-, s, hpass, rfl⟩ := complete_pass hσ
    have hat : LoopAt left right (left.zip right) s := ⟨List.prefix_refl _, hpass⟩
    refine ⟨s, hat, rfl, fun x hx => ?_⟩
    obtain ⟨t, ht⟩ := isBound_iff.1 hx
    obtain ⟨n, hn, hchain⟩ := hat.acyclic.chain_walk_le (.var x)
    exact ⟨n, hn, _, hchain, by rw [lookup_normalized, ht, Option.map_some]⟩

/-- Three left variables are bound in a row, then a right one to a constant: a chain has as many links as there are
bindings. -/
theorem complete_loop_acyclic_longest :
    let left : List Term := [.var "x", .var "y", .var "z", .const "A"]
    let right : List Term := [.var "y", .var "z", .var "w", .var "x"]
    ∃ before after, LoopAt left right ((left.zip right).take 3) before ∧ LoopAt left right (left.zip right) after ∧
      before.Extends after ∧ after.NoCycle ∧ after.size = 4 ∧ after.Chain 4 (.var "x") (.const "A") ∧
      complete.unify left right = .ok after.normalized := by
  intro left right
  let before := ((Substitution.empty.bind "x" (.var "y")).bind "y" (.var "z")).bind "z" (.var "w")
  let after := before.bind "w" (.const "A")
  have hbefore : LoopAt left right ((left.zip right).take 3) before := ⟨List.take_prefix _ _, rfl⟩
  have hafter : LoopAt left right (left.zip right) after := ⟨List.prefix_refl _, rfl⟩
  have hchain : after.Chain 4 (.var "x") (.const "A") := .link rfl (.link rfl (.link rfl (.link rfl (.const "A"))))
  obtain ⟨hpoint, hlater, -⟩ := complete_loop_acyclic left right
  exact ⟨before, after, hbefore, hafter, hlater _ _ _ _ hbefore hafter (List.take_prefix _ _), (hpoint _ _ hafter).1, rfl,
    hchain, rfl⟩

end Unifier

end Refutation
