/-
When the single pass is right.

The single pass binds a variable to the other side of its pair as written and never comes back to it, so its bindings are
the pairs that differ, and nothing else (`Records`). One application of such bindings makes the lists equal exactly when
they are in solved form: no variable with a binding occurs among the terms bound to (`Records.equal_iff`).

In solved form there are no chains to follow, so walking is a single application (`Solved.walk_eq`) and normalising
changes nothing (`Solved.normalized_eq`). Solved form passes down to the bindings made on the way. So when the result of
the single pass is in solved form, the complete unifier does at each pair what the single pass does
(`completeStep_of_singlePass`), and ends with the same substitution.
-/
import Refutation.Proofs.Resolvents

namespace Refutation

namespace Substitution

/-- no variable with a binding occurs among the terms bound to -/
def Solved (s : Substitution) : Prop := ∀ x, s.isBound x = true → ∀ y, s.lookup y ≠ some (.var x)

/-- `t` has the bindings of `s` -/
def Extends (s t : Substitution) : Prop := ∀ x u, s.lookup x = some u → t.lookup x = some u

theorem Extends.isBound {s t : Substitution} (h : s.Extends t) {x : String} (hx : s.isBound x = true) :
    t.isBound x = true := by
  obtain ⟨u, hu⟩ := isBound_iff.1 hx
  exact isBound_iff.2 ⟨u, h x u hu⟩

/-- what is the end of its chain is so with fewer bindings too -/
theorem Extends.ends {s t : Substitution} (h : s.Extends t) {u : Term} (hu : Chain t 0 u u) : Chain s 0 u u := by
  cases hu with
  | const a => exact .const a
  | @free x hx =>
    cases hs : s.lookup x with
    | none => exact .free hs
    | some v =>
      rw [h x v hs] at hx
      cases hx

theorem extends_bind {s : Substitution} {x : String} (hx : s.lookup x = none) (t : Term) : s.Extends (s.bind x t) := by
  intro y u hy
  have hne : x ≠ y := by
    intro hxy
    rw [hxy, hy] at hx
    cases hx
  rw [lookup_bind, if_neg hne, hy]

theorem apply_var_of_lookup {s : Substitution} {x : String} {t : Term} (hx : s.lookup x = some t) :
    s.apply (.var x) = t := by
  rw [apply, hx, Option.getD_some]

/-! ## Solved form -/

namespace Solved

variable {s t : Substitution}

theorem of_extends (ht : t.Solved) (h : s.Extends t) : s.Solved := by
  intro x hx y hy
  exact ht x (h.isBound hx) y (h y _ hy)

/-- a term bound to is the end of its chain -/
theorem ends (hs : s.Solved) {x : String} {u : Term} (hx : s.lookup x = some u) : Chain s 0 u u := by
  cases u with
  | const a => exact .const a
  | var y =>
    refine .free ?_
    by_contra hy
    exact hs y (Option.isSome_iff_ne_none.2 hy) x hx

theorem chain_apply (hs : s.Solved) (u : Term) : ∃ n, Chain s n u (s.apply u) := by
  cases u with
  | const a => exact ⟨0, .const a⟩
  | var x =>
    cases hx : s.lookup x with
    | none =>
      rw [apply, hx, Option.getD_none]
      exact ⟨0, .free hx⟩
    | some u =>
      rw [apply_var_of_lookup hx]
      exact ⟨1, .link hx (hs.ends hx)⟩

theorem walk_eq (hs : s.Solved) (u : Term) : s.walk u = s.apply u := by
  obtain ⟨n, hn⟩ := hs.chain_apply u
  exact hn.walk_eq

/-- a term bound to is left as it is -/
theorem apply_of_lookup (hs : s.Solved) {x : String} {u : Term} (hx : s.lookup x = some u) : s.apply u = u := by
  rw [← hs.walk_eq, (hs.ends hx).walk_eq]

theorem normalized_eq (hs : s.Solved) : s.normalized = s := by
  refine ext_lookup fun x => ?_
  rw [lookup_normalized, hs.walk_eq]
  cases hx : s.lookup x with
  | none => rfl
  | some u => rw [Option.map_some, apply_var_of_lookup hx]

end Solved

end Substitution

namespace Unifier

open Substitution

variable {s s' σ : Substitution} {a b : Term} {done pairs : List (Term × Term)} {left right : List Term}

/-! ## The bindings of the single pass -/

/-- the bindings `s` are the pairs `done` whose sides differ, read from the variable to the other side -/
structure Records (done : List (Term × Term)) (s : Substitution) : Prop where
  recorded : ∀ p ∈ done, p.1 = p.2 ∨ ∃ x t, s.lookup x = some t ∧ (p = (.var x, t) ∨ p = (t, .var x))
  origin : ∀ x t, s.lookup x = some t → t ≠ .var x ∧ ((.var x, t) ∈ done ∨ (t, .var x) ∈ done)

namespace Records

theorem start : Records [] .empty where
  recorded := by simp
  origin := by simp

/-- a pair with equal sides leaves no trace -/
theorem skip (h : Records done s) (a : Term) : Records (done ++ [(a, a)]) s where
  recorded := by
    intro p hp
    rcases List.mem_append.1 hp with hp | hp
    · exact h.recorded p hp
    · obtain rfl := List.mem_singleton.1 hp
      exact Or.inl rfl
  origin := by
    intro x t hx
    obtain ⟨hne, horigin⟩ := h.origin x t hx
    exact ⟨hne, horigin.imp (List.mem_append_left _) (List.mem_append_left _)⟩

theorem bind (h : Records done s) {x : String} {t : Term} {p : Term × Term} (hx : s.lookup x = none) (hne : t ≠ .var x)
    (hp : p = (.var x, t) ∨ p = (t, .var x)) : Records (done ++ [p]) (s.bind x t) where
  recorded := by
    intro q hq
    rcases List.mem_append.1 hq with hq | hq
    · rcases h.recorded q hq with heq | ⟨y, u, hy, hqy⟩
      · exact Or.inl heq
      · exact Or.inr ⟨y, u, extends_bind hx t y u hy, hqy⟩
    · obtain rfl := List.mem_singleton.1 hq
      exact Or.inr ⟨x, t, by rw [lookup_bind, if_pos rfl], hp⟩
  origin := by
    intro y u hy
    rw [lookup_bind] at hy
    by_cases hxy : x = y
    · rw [if_pos hxy] at hy
      subst hxy
      obtain rfl := Option.some.inj hy
      refine ⟨hne, ?_⟩
      rcases hp with rfl | rfl
      · exact Or.inl (by simp)
      · exact Or.inr (by simp)
    · rw [if_neg hxy] at hy
      obtain ⟨hne, horigin⟩ := h.origin y u hy
      exact ⟨hne, horigin.imp (List.mem_append_left _) (List.mem_append_left _)⟩

theorem step (h : Records done s) (hstep : singlePassStep s a b = .ok s') : Records (done ++ [(a, b)]) s' := by
  rcases singlePassStep_ok hstep with ⟨rfl, rfl⟩ | ⟨x, t, hx, hne, rfl, ⟨rfl, rfl⟩ | ⟨rfl, rfl, -⟩⟩
  · exact h.skip a
  · exact h.bind hx hne (Or.inl rfl)
  · exact h.bind hx hne (Or.inr rfl)

/-- **Right means solved.** One application of the recorded bindings makes the sides of every pair equal exactly when no
variable with a binding occurs among the terms bound to. -/
theorem equal_iff (h : Records done s) : (∀ p ∈ done, s.apply p.1 = s.apply p.2) ↔ s.Solved := by
  constructor
  · intro heq x hx y hy
    -- `y` is bound to `x` and `x` to `u`, so the pair of `y` becomes `x` and `u`
    obtain ⟨u, hu⟩ := isBound_iff.1 hx
    have hpair : s.apply (.var y) = s.apply (.var x) := by
      rcases (h.origin y _ hy).2 with hmem | hmem
      · exact heq _ hmem
      · exact (heq _ hmem).symm
    rw [apply_var_of_lookup hy, apply_var_of_lookup hu] at hpair
    exact (h.origin x u hu).1 hpair.symm
  · intro hs p hp
    rcases h.recorded p hp with heq | ⟨x, t, hx, hpx⟩
    · rw [heq]
    · have hsides : s.apply (.var x) = s.apply t := by rw [apply_var_of_lookup hx, hs.apply_of_lookup hx]
      rcases hpx with rfl | rfl
      · exact hsides
      · exact hsides.symm

end Records

theorem records_of_overPairs (h : overPairs singlePassStep .empty pairs = .ok s) : Records pairs s :=
  overPairs_induction (fun _ _ _ _ _ _ hI hs => hI.step hs) Records.start h

/-! ## Both unifiers at one pair -/

theorem singlePassStep_extends (h : singlePassStep s a b = .ok s') : s.Extends s' := by
  rcases singlePassStep_ok h with ⟨-, rfl⟩ | ⟨x, t, hx, -, rfl, -⟩
  · exact fun _ _ hx => hx
  · exact extends_bind hx t

theorem overPairs_extends (h : overPairs singlePassStep s pairs = .ok σ) : s.Extends σ := by
  refine overPairs_induction (I := fun _ s1 => s.Extends s1) ?_ (fun _ _ hx => hx) h
  intro done s1 s2 a b _ hs1 hstep x u hx
  exact singlePassStep_extends hstep x u (hs1 x u hx)

/-- where the bindings stay in solved form, following them to the end makes no difference to an accepted pair -/
theorem completeStep_of_singlePass (hσ : σ.Solved) (h : singlePassStep s a b = .ok s') (hext : s'.Extends σ) :
    completeStep s a b = .ok s' := by
  have hs' : s'.Solved := hσ.of_extends hext
  rcases singlePassStep_ok h with ⟨rfl, rfl⟩ | ⟨x, t, hx, hne, rfl, hsides⟩
  · simp only [completeStep, if_pos]
  · have hwalkx : s.walk (.var x) = .var x := (Chain.free hx).walk_eq
    -- the other side is bound to from now on, so it is the end of its chain, now and before
    have hbound : (s.bind x t).lookup x = some t := by rw [lookup_bind, if_pos rfl]
    have hends : Chain s 0 t t := (extends_bind hx t).ends (hs'.ends hbound)
    have hwalkt : s.walk t = t := hends.walk_eq
    rcases hsides with ⟨rfl, rfl⟩ | ⟨rfl, rfl, hleft⟩
    · simp only [completeStep, hwalkx, hwalkt, if_neg (Ne.symm hne)]
    · -- the left side is no variable: one without a binding would have been bound itself
      cases t with
      | const c => simp only [completeStep, hwalkx, hwalkt, if_neg hne]
      | var y =>
        have hybound := hleft y rfl
        rw [isBound, hends.lookup_end] at hybound
        cases hybound

/-- **In step.** A single pass that ends in solved form is a pass of the complete unifier. -/
theorem overPairs_completeStep (hσ : σ.Solved) (h : overPairs singlePassStep s pairs = .ok σ) :
    overPairs completeStep s pairs = .ok σ := by
  induction pairs generalizing s with
  | nil => exact h
  | cons p pairs ih =>
    obtain ⟨a, b⟩ := p
    simp only [overPairs] at h ⊢
    cases hab : singlePassStep s a b with
    | error e => simp [hab] at h
    | ok s1 =>
      rw [hab] at h
      rw [completeStep_of_singlePass hσ hab (overPairs_extends h)]
      exact ih h

/-! ## The result -/

theorem singlePass_ok (h : singlePass.unify left right = .ok σ) :
    left.length = right.length ∧ overPairs singlePassStep .empty (left.zip right) = .ok σ := by
  simp only [unify] at h
  split_ifs at h with hlen
  exact ⟨by simpa using hlen, h⟩

/-- **When the single pass is right.** The substitution that the single pass finds makes the lists equal in one application
if and only if no variable with a binding occurs among the terms bound to, and these are the lists for which the complete
unifier finds the same substitution. -/
theorem singlePass_right_iff (left right : List Term) (σ : Substitution) (h : singlePass.unify left right = .ok σ) :
    (σ.Unifies left right ↔ σ.Solved) ∧ (σ.Solved ↔ complete.unify left right = .ok σ) := by
  obtain ⟨hlen, hpass⟩ := singlePass_ok h
  have hunifies : σ.Unifies left right ↔ σ.Solved :=
    (map_eq_map_iff_zip hlen).trans (records_of_overPairs hpass).equal_iff
  refine ⟨hunifies, fun hσ => ?_, fun hcomplete => ?_⟩
  · simp only [unify, if_neg (not_not.2 hlen), overPairs_completeStep hσ hpass, Except.map, hσ.normalized_eq]
  · exact hunifies.1 (complete_unifies hcomplete)

/-- With shared variables: `[x, A, w, w]` and `[y, z, y, w]` are made equal without a chain, `[x, y]` and `[y, A]` are not. -/
theorem singlePass_right_shared :
    (let left : List Term := [.var "x", .const "A", .var "w", .var "w"]
      let right : List Term := [.var "y", .var "z", .var "y", .var "w"]
      ∃ σ, singlePass.unify left right = .ok σ ∧ σ.Unifies left right ∧ complete.unify left right = .ok σ) ∧
    (let left : List Term := [.var "x", .var "y"]
      let right : List Term := [.var "y", .const "A"]
      ∃ σ, singlePass.unify left right = .ok σ ∧ ¬ σ.Solved ∧ complete.unify left right ≠ .ok σ) := by
  constructor
  · let σ := ((Substitution.empty.bind "x" (.var "y")).bind "z" (.const "A")).bind "w" (.var "y")
    have h : singlePass.unify [.var "x", .const "A", .var "w", .var "w"]
        [.var "y", .var "z", .var "y", .var "w"] = .ok σ := rfl
    obtain ⟨hunifies, hcomplete⟩ := singlePass_right_iff _ _ σ h
    have hequal : σ.Unifies [.var "x", .const "A", .var "w", .var "w"] [.var "y", .var "z", .var "y", .var "w"] := rfl
    exact ⟨σ, h, hequal, hcomplete.1 (hunifies.1 hequal)⟩
  · let σ := (Substitution.empty.bind "x" (.var "y")).bind "y" (.const "A")
    have h : singlePass.unify [.var "x", .var "y"] [.var "y", .const "A"] = .ok σ := rfl
    obtain ⟨-, hcomplete⟩ := singlePass_right_iff _ _ σ h
    -- `y` has a binding and `x` is bound to it
    have hchain : ¬ σ.Solved := fun hσ => hσ "y" rfl "x" rfl
    exact ⟨σ, h, hchain, fun hsame => hchain (hcomplete.2 hsame)⟩

end Unifier

end Refutation
