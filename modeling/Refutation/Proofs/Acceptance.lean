/-
Which lists the unifiers accept.

Whatever the single pass accepts, the complete unifier accepts (`complete_ok_of_singlePass`). The bindings of the single
pass need not unify and may have a cycle, as for `[x, y]` and `[y, x]`. But every pair that differs binds a variable of its
own, so from each term at most one binding leads on, and no term leads to two constants. Sending each term to the end of its
chain, and all terms whose chain has no end to one constant, makes every pair equal (`Records.collapsed_equal`).

Against constants the single pass accepts a list exactly when each constant of the list meets itself and no variable occurs
twice (`overPairs_ground`): a bound variable is refused without a look at its binding. What is accepted is right, since a
binding is a pair that differs (`Records`) and such a pair leads from a variable to a constant.
-/
import Refutation.Proofs.CompleteResolution
import Refutation.Proofs.SinglePass

namespace Refutation

/-! ## Chains without an end -/

namespace Substitution

variable {s : Substitution} {t u : Term} {x : String} {n : Nat}

/-- the end of the chain from a term; one constant stands for all chains that have no end -/
def settle (s : Substitution) (t : Term) : Term :=
  match s.walk t with
  | .const a => .const a
  | .var y => if s.isBound y then .const "" else .var y

/-- every binding replaced by what its variable settles to -/
def collapsed (s : Substitution) : Substitution := ⟨s.map.map fun x _ => s.settle (.var x)⟩

theorem lookup_collapsed (s : Substitution) (x : String) :
    s.collapsed.lookup x = (s.lookup x).map fun _ => s.settle (.var x) :=
  Std.ExtTreeMap.getElem?_map

/-- a walk comes to the end of a chain, or stops at a variable that has a binding -/
theorem walkFor_cases (s : Substitution) (links : Nat) (t : Term) :
    (∃ n, Chain s n t (s.walkFor links t)) ∨ ∃ y, s.walkFor links t = .var y ∧ s.isBound y = true := by
  induction links generalizing t with
  | zero =>
    cases t with
    | const a => exact Or.inl ⟨0, .const a⟩
    | var x =>
      cases hx : s.lookup x with
      | none => exact Or.inl ⟨0, .free hx⟩
      | some t => exact Or.inr ⟨x, rfl, isBound_iff.2 ⟨t, hx⟩⟩
  | succ links ih =>
    cases t with
    | const a => exact Or.inl ⟨0, .const a⟩
    | var x =>
      simp only [walkFor]
      cases hx : s.lookup x with
      | none => exact Or.inl ⟨0, .free hx⟩
      | some t =>
        rcases ih t with ⟨n, hn⟩ | hstopped
        · exact Or.inl ⟨n + 1, .link hx hn⟩
        · exact Or.inr hstopped

theorem Chain.settle_eq (h : Chain s n t u) : s.settle t = u := by
  unfold settle
  rw [h.walk_eq]
  cases u with
  | const a => rfl
  | var y =>
    have hfree : s.isBound y = false := by rw [isBound, h.lookup_end, Option.isSome_none]
    simp only [hfree, Bool.false_eq_true, if_false]

theorem settle_of_endless (h : ¬ ∃ n u, Chain s n t u) : s.settle t = .const "" := by
  rcases walkFor_cases s s.size t with ⟨n, hn⟩ | ⟨y, hy, hbound⟩
  · exact absurd ⟨n, _, hn⟩ h
  · unfold settle
    rw [walk, hy]
    exact if_pos hbound

/-- a variable settles where the term that it is bound to settles -/
theorem settle_of_lookup (hx : s.lookup x = some t) : s.settle (.var x) = s.settle t := by
  by_cases hend : ∃ n u, Chain s n t u
  · obtain ⟨n, u, hu⟩ := hend
    rw [hu.settle_eq, (Chain.link hx hu).settle_eq]
  · have hvar : ¬ ∃ n u, Chain s n (.var x) u := by
      intro ⟨n, u, hu⟩
      cases hu with
      | free hfree =>
        rw [hx] at hfree
        cases hfree
      | link hx' rest =>
        rw [hx] at hx'
        obtain rfl := Option.some.inj hx'
        exact hend ⟨_, _, rest⟩
    rw [settle_of_endless hend, settle_of_endless hvar]

theorem apply_collapsed (s : Substitution) (t : Term) : s.collapsed.apply t = s.settle t := by
  cases t with
  | const a => rw [(Chain.const a).settle_eq, apply]
  | var x =>
    rw [apply, lookup_collapsed]
    cases hx : s.lookup x with
    | none => rw [(Chain.free hx).settle_eq, Option.map_none, Option.getD_none]
    | some t => rw [Option.map_some, Option.getD_some]

theorem isBound_bind (s : Substitution) (x y : String) (t : Term) :
    (s.bind x t).isBound y = true ↔ x = y ∨ s.isBound y = true := by
  rw [isBound, lookup_bind]
  by_cases hxy : x = y
  · simp [hxy]
  · simp [hxy, isBound]

end Substitution

/-! ## The complete unifier accepts more -/

namespace Unifier

variable {s σ : Substitution} {done : List (Term × Term)} {left right : List Term}

/-- the bindings of the single pass make every pair equal once they are collapsed -/
theorem Records.collapsed_equal (h : Records done s) :
    ∀ p ∈ done, s.collapsed.apply p.1 = s.collapsed.apply p.2 := by
  intro p hp
  rw [Substitution.apply_collapsed, Substitution.apply_collapsed]
  rcases h.recorded p hp with heq | ⟨x, t, hx, hpx⟩
  · rw [heq]
  · have hsettle := Substitution.settle_of_lookup hx
    rcases hpx with hpx | hpx
    · rw [hpx, hsettle]
    · rw [hpx, hsettle]

theorem complete_ok_of_singlePass (h : singlePass.unify left right = .ok σ) :
    ∃ τ, complete.unify left right = .ok τ := by
  obtain ⟨hlen, hpass⟩ := singlePass_ok h
  have hunifies : σ.collapsed.Unifies left right :=
    (map_eq_map_iff_zip hlen).2 (records_of_overPairs hpass).collapsed_equal
  exact complete_ok_of_unifies hunifies

end Unifier

/-- **The complete unifier accepts whatever the single pass accepts**, and makes the lists equal even where the single pass
does not. So with it two clauses have a resolvent on every pair of literals on which they have one with the single pass. -/
theorem complete_accepts_singlePass :
    (∀ (left right : List Term) (σ : Substitution), Unifier.singlePass.unify left right = .ok σ →
      ∃ τ, Unifier.complete.unify left right = .ok τ ∧ τ.Unifies left right) ∧
    ∀ c d : Clause, ∀ r ∈ resolvents .singlePass c d,
      ∃ r' ∈ resolvents .complete c d, r'.At r.leftIndex r.rightIndex := by
  constructor
  · intro left right σ h
    obtain ⟨τ, hτ⟩ := Unifier.complete_ok_of_singlePass h
    exact ⟨τ, hτ, Unifier.complete_unifies hτ⟩
  · intro c d r hr
    obtain ⟨l, m, hl, hm, hclash, hs, -⟩ := exists_unify_of_mem hr
    obtain ⟨τ, hτ⟩ := Unifier.complete_ok_of_singlePass hs
    exact ⟨_, mem_resolvents.2 ⟨r.leftIndex, r.rightIndex, l, m, τ, hl, hm, hclash, hτ, rfl⟩, rfl, rfl⟩

/-- The bindings that the single pass makes for `[x, y, z]` and `[y, x, A]` have a cycle. The converse fails: `[x, x]` and
`[A, A]` are accepted by the complete unifier alone. -/
theorem complete_accepts_cycle :
    let left : List Term := [.var "x", .var "y", .var "z"]
    let right : List Term := [.var "y", .var "x", .const "A"]
    let c : Clause := ⟨[⟨true, "P", left⟩, ⟨true, "Q", [.var "x"]⟩]⟩
    let d : Clause := ⟨[⟨true, "R", []⟩, ⟨false, "P", right⟩]⟩
    (∃ σ, Unifier.singlePass.unify left right = .ok σ ∧ ¬ σ.Acyclic) ∧
    (∃ τ, Unifier.complete.unify left right = .ok τ ∧ τ.Unifies left right) ∧
    (∃ r ∈ resolvents .singlePass c d, r.At 0 1 ∧ ∃ r' ∈ resolvents .complete c d, r'.At 0 1) ∧
    (∀ σ, Unifier.singlePass.unify [.var "x", .var "x"] [.const "A", .const "A"] ≠ .ok σ) ∧
    ∃ τ, Unifier.complete.unify [.var "x", .var "x"] [.const "A", .const "A"] = .ok τ := by
  intro left right c d
  let σ := ((Substitution.empty.bind "x" (.var "y")).bind "y" (.var "x")).bind "z" (.const "A")
  have hσ : Unifier.singlePass.unify left right = .ok σ := rfl
  have hr : ⟨resolventClause c 0 d 1 σ, 0, 1, σ⟩ ∈ resolvents .singlePass c d :=
    mem_resolvents.2 ⟨0, 1, _, _, σ, rfl, rfl, by decide, hσ, rfl⟩
  obtain ⟨hlists, hclauses⟩ := complete_accepts_singlePass
  refine ⟨⟨σ, hσ, ?_⟩, hlists left right σ hσ, ⟨_, hr, ⟨rfl, rfl⟩, hclauses c d _ hr⟩, ?_, ⟨_, rfl⟩⟩
  · intro hacyclic
    -- three links from `x` lead to `y`, which has a binding
    have hfree := hacyclic.lookup_walk (t := .var "x") (x := "y") rfl
    cases hfree
  · intro σ h
    cases h

/-! ## Against constants -/

namespace Unifier

variable {s : Substitution} {done pairs : List (Term × Term)} {left right : List Term}

theorem singlePassStep_const (s : Substitution) (a c : String) :
    singlePassStep s (.const a) (.const c) =
      if a = c then .ok s else .error (.constantClash (.const a) (.const c)) := by
  by_cases hac : a = c
  · simp [singlePassStep, hac]
  · simp [singlePassStep, hac, unbound?, Term.isVar]

theorem singlePassStep_var_const (s : Substitution) (x c : String) :
    singlePassStep s (.var x) (.const c) =
      if s.isBound x then .error (.conflictingBinding (.var x) (.const c)) else .ok (s.bind x (.const c)) := by
  by_cases hx : s.isBound x = true
  · simp [singlePassStep, unbound?, hx, Term.isVar]
  · simp [singlePassStep, unbound?, hx]

/-- **What the single pass accepts against constants**, from bindings on: constants that are equal, and variables without a
binding that occur once. -/
theorem overPairs_ground (hground : ∀ p ∈ pairs, p.2.isVar = false) (s : Substitution) :
    (∃ σ, overPairs singlePassStep s pairs = .ok σ) ↔
      (∀ p ∈ pairs, ∀ a, p.1 = .const a → p.2 = .const a) ∧
      ∀ x, (pairs.map Prod.fst).count (.var x) ≤ if s.isBound x then 0 else 1 := by
  induction pairs generalizing s with
  | nil => simp [overPairs]
  | cons p pairs ih =>
    obtain ⟨hp, hrest⟩ := List.forall_mem_cons.1 hground
    have ih := ih hrest
    obtain ⟨a, b⟩ := p
    cases b with
    | var y => cases hp
    | const c =>
      rw [List.forall_mem_cons, List.map_cons]
      cases a with
      | const a =>
        rw [overPairs, singlePassStep_const]
        by_cases hac : a = c
        · simp [hac, ih s]
        · simp [hac, Ne.symm hac]
      | var x =>
        rw [overPairs, singlePassStep_var_const]
        by_cases hx : s.isBound x = true
        · refine iff_of_false (by simp [hx]) fun h => ?_
          have hcount := h.2 x
          rw [if_pos hx, List.count_cons_self] at hcount
          omega
        · -- this occurrence of `x` is the one that is left: from here on `x` has a binding
          rw [if_neg hx]
          refine (ih (s.bind x (.const c))).trans (and_congr (by simp) (forall_congr' fun y => ?_))
          by_cases hxy : x = y
          · subst hxy
            rw [if_pos ((Substitution.isBound_bind s x x _).2 (Or.inl rfl)), if_neg hx, List.count_cons_self]
            omega
          · have hbound : (s.bind x (.const c)).isBound y = s.isBound y := by
              rw [Bool.eq_iff_iff, Substitution.isBound_bind, or_iff_right hxy]
            rw [hbound, List.count_cons_of_ne (by simpa using hxy)]

/-- each constant of a list meets itself in another, said of the pairs and said of the positions -/
theorem forall_mem_zip_const (hlen : left.length = right.length) :
    (∀ p ∈ left.zip right, ∀ a, p.1 = .const a → p.2 = .const a) ↔
      ∀ (i : Nat) (a : String), left[i]? = some (Term.const a) → right[i]? = some (Term.const a) := by
  constructor
  · intro h i a ha
    have hi : i < right.length := hlen ▸ (List.getElem?_eq_some_iff.1 ha).1
    have hb : right[i]? = some right[i] := List.getElem?_eq_getElem hi
    have hmem : (Term.const a, right[i]) ∈ left.zip right :=
      List.mem_of_getElem? (List.getElem?_zip_eq_some.2 ⟨ha, hb⟩)
    rw [hb]
    exact congrArg some (h _ hmem a rfl)
  · intro h p hp a ha
    obtain ⟨i, hi⟩ := List.mem_iff_getElem?.1 hp
    obtain ⟨hl, hr⟩ := List.getElem?_zip_eq_some.1 hi
    rw [ha] at hl
    rw [h i a hl] at hr
    exact (Option.some.inj hr).symm

namespace Records

/-- one application brings the left side of a pair to the constant on the right -/
theorem apply_left (h : Records done s) {p : Term × Term} (hp : p ∈ done) (hground : p.2.isVar = false) :
    s.apply p.1 = p.2 := by
  obtain ⟨a, b⟩ := p
  cases b with
  | var y => cases hground
  | const c =>
    rcases h.recorded _ hp with heq | ⟨x, t, hx, hpx | hpx⟩
    · rw [heq, Substitution.apply]
    · obtain ⟨rfl, rfl⟩ := Prod.mk.inj hpx
      exact Substitution.apply_var_of_lookup hx
    · cases (Prod.mk.inj hpx).2

/-- against constants the variables with a binding are those of the left sides -/
theorem isBound_iff_mem (h : Records done s) (hground : ∀ p ∈ done, p.2.isVar = false) (x : String) :
    s.isBound x = true ↔ .var x ∈ done.map Prod.fst := by
  constructor
  · intro hx
    obtain ⟨t, ht⟩ := Substitution.isBound_iff.1 hx
    rcases (h.origin x t ht).2 with hmem | hmem
    · exact List.mem_map.2 ⟨_, hmem, rfl⟩
    · cases hground _ hmem
  · intro hx
    obtain ⟨p, hp, hpx⟩ := List.mem_map.1 hx
    by_contra hfree
    -- without a binding the variable would stay, but it is brought to a constant
    have hnone : s.lookup x = none := by simpa [Substitution.isBound] using hfree
    have hconst := hground p hp
    rw [← h.apply_left hp hconst, hpx, Substitution.apply, hnone] at hconst
    cases hconst

end Records

/-- **The single pass against constants.** It accepts a list exactly when each constant of the list meets itself and no
variable occurs twice, not even where both occurrences meet one constant. The substitution then binds the variables of the
list and no others, and one application of it gives the constants. -/
theorem singlePass_ground_iff (left right : List Term) (hlen : left.length = right.length)
    (hground : ∀ t ∈ right, t.isVar = false) :
    ((∃ σ, singlePass.unify left right = .ok σ) ↔
      (∀ (i : Nat) (a : String), left[i]? = some (Term.const a) → right[i]? = some (Term.const a)) ∧
      ∀ x, left.count (.var x) ≤ 1) ∧
    ∀ σ, singlePass.unify left right = .ok σ →
      (∀ x, σ.isBound x = true ↔ .var x ∈ left) ∧ left.map σ.apply = right := by
  have hfst : (left.zip right).map Prod.fst = left := List.map_fst_zip hlen.le
  have hpairs : ∀ p ∈ left.zip right, p.2.isVar = false := fun p hp => hground _ (List.of_mem_zip hp).2
  constructor
  · have hunify : singlePass.unify left right = overPairs singlePassStep .empty (left.zip right) := by
      simp only [unify, if_neg (not_not.2 hlen)]
    have hfree : ∀ x, Substitution.empty.isBound x = false := by
      intro x
      rw [Substitution.isBound, Substitution.lookup_empty, Option.isSome_none]
    rw [hunify, overPairs_ground hpairs, hfst, forall_mem_zip_const hlen]
    simp only [hfree, Bool.false_eq_true, if_false]
  · intro σ hσ
    have hrecords := records_of_overPairs (singlePass_ok hσ).2
    constructor
    · intro x
      rw [hrecords.isBound_iff_mem hpairs, hfst]
    · calc left.map σ.apply = (left.zip right).map (fun p => σ.apply p.1) := by
            conv_lhs => rw [← hfst, List.map_map]
            rfl
        _ = (left.zip right).map Prod.snd := List.map_congr_left fun p hp => hrecords.apply_left hp (hpairs p hp)
        _ = right := List.map_snd_zip hlen.ge

/-- `[x, A, y]` is accepted against `[B, A, B]`; `[x, A, x]` is refused although both occurrences of `x` meet `B` -/
theorem singlePass_ground_repeated :
    let right : List Term := [.const "B", .const "A", .const "B"]
    (∃ σ, singlePass.unify [.var "x", .const "A", .var "y"] right = .ok σ ∧ σ.isBound "y" = true ∧
      σ.isBound "z" = false ∧ [Term.var "x", .const "A", .var "y"].map σ.apply = right) ∧
    ∀ σ, singlePass.unify [.var "x", .const "A", .var "x"] right ≠ .ok σ := by
  intro right
  constructor
  · obtain ⟨haccepts, hright⟩ := singlePass_ground_iff [.var "x", .const "A", .var "y"] right rfl (by decide)
    have hconst : ∀ (i : Nat) (a : String), [Term.var "x", .const "A", .var "y"][i]? = some (Term.const a) →
        right[i]? = some (Term.const a) := by
      intro i a ha
      rcases i with _ | _ | _ | i
      · cases ha
      · exact ha
      · cases ha
      · cases ha
    have hcount : ∀ x, [Term.var "x", .const "A", .var "y"].count (.var x) ≤ 1 := by
      intro x
      have hnodup : [Term.var "x", .const "A", .var "y"].Nodup := by decide
      exact List.nodup_iff_count_le_one.1 hnodup _
    obtain ⟨σ, hσ⟩ := haccepts.2 ⟨hconst, hcount⟩
    obtain ⟨hbound, happly⟩ := hright σ hσ
    refine ⟨σ, hσ, (hbound "y").2 (by decide), ?_, happly⟩
    rw [Bool.eq_false_iff, ne_eq, hbound]
    decide
  · obtain ⟨haccepts, -⟩ := singlePass_ground_iff [.var "x", .const "A", .var "x"] right rfl (by decide)
    intro σ hσ
    have htwice := (haccepts.1 ⟨σ, hσ⟩).2 "x"
    revert htwice
    decide

end Unifier

end Refutation
