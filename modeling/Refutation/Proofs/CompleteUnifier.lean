/-
The complete unifier is correct: it finds a unifier when there is one, and the one it finds is most general.

`Solves T done s` is what its loop keeps. The bindings `s` made for the pairs `done` have no cycle; each of the pairs ends
in one term; every map of terms that makes the pairs equal respects every binding, so nothing is bound that the pairs do
not force; and the bindings stay within the terms `T` of the two lists. One pair keeps it (`Solves.step`), hence the whole
pass does (`overPairs_induction`). Normalising turns the ends of chains into a single application.
-/
import Refutation.Proofs.Chains
import Refutation.Unifier

namespace Refutation

/-- one application of the substitution makes the two lists equal -/
def Substitution.Unifies (s : Substitution) (left right : List Term) : Prop := left.map s.apply = right.map s.apply

theorem map_eq_map_iff_zip {f : Term → Term} {left right : List Term} (h : left.length = right.length) :
    left.map f = right.map f ↔ ∀ p ∈ left.zip right, f p.1 = f p.2 := by
  induction left generalizing right with
  | nil =>
    cases right with
    | nil => simp
    | cons b right => simp at h
  | cons a left ih =>
    cases right with
    | nil => simp at h
    | cons b right =>
      have hlen : left.length = right.length := by simpa using h
      simp only [List.map_cons, List.cons.injEq, List.zip_cons_cons, List.forall_mem_cons, ih hlen]

namespace Unifier

/-! ## A pass over the pairs -/

section Pass

variable {step : Substitution → Term → Term → Except UnifyError Substitution}

/-- what every step keeps, a pass keeps; `I done s` speaks of the pairs behind and the bindings made -/
theorem overPairs_induction {I : List (Term × Term) → Substitution → Prop} {pairs : List (Term × Term)}
    (hstep : ∀ done s s' a b, (a, b) ∈ pairs → I done s → step s a b = .ok s' → I (done ++ [(a, b)]) s')
    {s s' : Substitution} (h0 : I [] s) (h : overPairs step s pairs = .ok s') : I pairs s' := by
  suffices hrun : ∀ rest done s, rest ⊆ pairs → I done s → overPairs step s rest = .ok s' → I (done ++ rest) s' by
    simpa using hrun pairs [] s (List.Subset.refl _) h0 h
  intro rest
  induction rest with
  | nil =>
    intro done s _ hI h
    simp only [overPairs, Except.ok.injEq] at h
    subst h
    simpa using hI
  | cons p rest ih =>
    intro done s hsub hI h
    obtain ⟨a, b⟩ := p
    simp only [overPairs] at h
    cases hab : step s a b with
    | error e => simp [hab] at h
    | ok s1 =>
      rw [hab] at h
      have hI1 := hstep done s s1 a b (hsub List.mem_cons_self) hI hab
      have := ih _ s1 (fun q hq => hsub (List.mem_cons_of_mem _ hq)) hI1 h
      simpa using this

theorem overPairs_append (s : Substitution) (done rest : List (Term × Term)) :
    overPairs step s (done ++ rest) = (overPairs step s done).bind fun t => overPairs step t rest := by
  induction done generalizing s with
  | nil => rfl
  | cons p done ih =>
    obtain ⟨a, b⟩ := p
    rw [List.cons_append, overPairs, overPairs]
    cases step s a b with
    | error e => rfl
    | ok s1 => exact ih s1

/-- a pass that fails has gone well up to the pair at which it fails -/
theorem overPairs_error {s : Substitution} {pairs : List (Term × Term)} {e : UnifyError}
    (h : overPairs step s pairs = .error e) :
    ∃ done a b rest s', pairs = done ++ (a, b) :: rest ∧ overPairs step s done = .ok s' ∧ step s' a b = .error e := by
  induction pairs generalizing s with
  | nil => simp [overPairs] at h
  | cons p pairs ih =>
    obtain ⟨a, b⟩ := p
    simp only [overPairs] at h
    cases hab : step s a b with
    | error e' =>
      rw [hab] at h
      obtain rfl : e' = e := by simpa using h
      exact ⟨[], a, b, pairs, s, rfl, rfl, hab⟩
    | ok s1 =>
      rw [hab] at h
      obtain ⟨done, a', b', rest, s', rfl, hdone, hfail⟩ := ih h
      exact ⟨(a, b) :: done, a', b', rest, s', rfl, by simp only [overPairs, hab, hdone], hfail⟩

end Pass

/-! ## One pair -/

/-- an accepted pair ends in one term already, or in a variable `x` and another term, to which `x` is then bound -/
theorem completeStep_ok {s s' : Substitution} {a b : Term} (h : completeStep s a b = .ok s') :
    (s.walk a = s.walk b ∧ s' = s) ∨
      ∃ x w, w ≠ .var x ∧ s' = s.bind x w ∧
        ((s.walk a = .var x ∧ s.walk b = w) ∨ (s.walk a = w ∧ s.walk b = .var x)) := by
  simp only [completeStep] at h
  split at h
  · rename_i heq
    exact Or.inl ⟨heq, by simpa using h.symm⟩
  · rename_i hne
    right
    cases ha : s.walk a with
    | var x =>
      rw [ha] at h hne
      exact ⟨x, s.walk b, Ne.symm hne, by simpa using h.symm, Or.inl ⟨rfl, rfl⟩⟩
    | const c =>
      cases hb : s.walk b with
      | var y =>
        rw [ha, hb] at h
        exact ⟨y, .const c, by simp, by simpa using h.symm, Or.inr ⟨rfl, rfl⟩⟩
      | const d => simp [ha, hb] at h

/-- a refused pair ends in two constants -/
theorem completeStep_error {s : Substitution} {a b : Term} {e : UnifyError} (h : completeStep s a b = .error e) :
    ∃ c d, c ≠ d ∧ s.walk a = .const c ∧ s.walk b = .const d ∧ e = .constantClash (.const c) (.const d) := by
  simp only [completeStep] at h
  split at h
  · cases h
  · rename_i hne
    cases ha : s.walk a with
    | var x => simp [ha] at h
    | const c =>
      cases hb : s.walk b with
      | var y => simp [ha, hb] at h
      | const d =>
        refine ⟨c, d, ?_, rfl, rfl, by simpa [ha, hb] using h.symm⟩
        rintro rfl
        exact hne (by rw [ha, hb])

/-- the variable that a pair binds has no binding, and the term that it is bound to ends its own chain -/
theorem free_of_ends {s : Substitution} (hs : s.Acyclic) {a b w : Term} {x : String}
    (hends : (s.walk a = .var x ∧ s.walk b = w) ∨ (s.walk a = w ∧ s.walk b = .var x)) :
    s.lookup x = none ∧ s.Chain 0 w w := by
  rcases hends with ⟨hx, rfl⟩ | ⟨rfl, hx⟩
  · exact ⟨hs.lookup_walk hx, hs.ends_walk b⟩
  · exact ⟨hs.lookup_walk hx, hs.ends_walk a⟩

theorem completeStep_acyclic {s s' : Substitution} {a b : Term} (hs : s.Acyclic) (h : completeStep s a b = .ok s') :
    s'.Acyclic := by
  rcases completeStep_ok h with ⟨-, rfl⟩ | ⟨x, w, hne, rfl, hends⟩
  · exact hs
  · obtain ⟨hx, hw⟩ := free_of_ends hs hends
    exact hs.bind hx hw hne

/-! ## The invariant -/

/-- what the bindings `s` made for the pairs `done` satisfy; `T` holds the terms of the two lists -/
structure Solves (T : List Term) (done : List (Term × Term)) (s : Substitution) : Prop where
  acyclic : s.Acyclic
  equal : ∀ p ∈ done, s.walk p.1 = s.walk p.2
  /-- the pairs force every binding -/
  forced : ∀ f : Term → Term, (∀ p ∈ done, f p.1 = f p.2) → ∀ x t, s.lookup x = some t → f (.var x) = f t
  within : ∀ x t, s.lookup x = some t → .var x ∈ T ∧ t ∈ T

namespace Solves

variable {T : List Term} {done : List (Term × Term)} {s : Substitution}

theorem start (T : List Term) : Solves T [] .empty where
  acyclic := Substitution.acyclic_empty
  equal := by simp
  forced := by simp
  within := by simp

theorem walk_mem (h : Solves T done s) {t : Term} (ht : t ∈ T) : s.walk t ∈ T :=
  h.acyclic.walk_mem (fun x t hx => (h.within x t hx).2) ht

/-- a map that makes the pairs equal does not tell a term from the end of its chain -/
theorem map_walk (h : Solves T done s) {f : Term → Term} (hf : ∀ p ∈ done, f p.1 = f p.2) (t : Term) :
    f (s.walk t) = f t :=
  h.acyclic.map_walk (h.forced f hf) t

theorem bind (h : Solves T done s) {a b w : Term} {x : String} (ha : a ∈ T) (hb : b ∈ T) (hne : w ≠ .var x)
    (hends : (s.walk a = .var x ∧ s.walk b = w) ∨ (s.walk a = w ∧ s.walk b = .var x)) :
    Solves T (done ++ [(a, b)]) (s.bind x w) := by
  obtain ⟨hx, hw⟩ := free_of_ends h.acyclic hends
  have hwalk := h.acyclic.walk_bind hx hw hne
  refine ⟨h.acyclic.bind hx hw hne, ?_, ?_, ?_⟩
  · intro p hp
    rcases List.mem_append.1 hp with hp | hp
    · rw [hwalk, hwalk, h.equal p hp]
    · -- one of the two ends in `x`, the other in `w`: both now end in `w`
      obtain rfl := List.mem_singleton.1 hp
      rcases hends with ⟨e1, e2⟩ | ⟨e1, e2⟩ <;> simp only [hwalk, e1, e2, if_pos, if_neg hne]
  · intro f hf y t hy
    have hdone : ∀ p ∈ done, f p.1 = f p.2 := fun p hp => hf p (List.mem_append_left _ hp)
    have hab : f a = f b := hf (a, b) (by simp)
    rw [Substitution.lookup_bind] at hy
    split_ifs at hy with hxy
    · subst hxy
      obtain rfl : w = t := by simpa using hy
      have hwa := h.map_walk hdone a
      have hwb := h.map_walk hdone b
      rcases hends with ⟨e1, e2⟩ | ⟨e1, e2⟩
      · rw [← e1, ← e2, hwa, hwb, hab]
      · rw [← e1, ← e2, hwa, hwb, hab]
    · exact h.forced f hdone y t hy
  · intro y t hy
    rw [Substitution.lookup_bind] at hy
    split_ifs at hy with hxy
    · subst hxy
      obtain rfl : w = t := by simpa using hy
      have hwa := h.walk_mem ha
      have hwb := h.walk_mem hb
      rcases hends with ⟨e1, e2⟩ | ⟨e1, e2⟩
      · rw [e1] at hwa
        rw [e2] at hwb
        exact ⟨hwa, hwb⟩
      · rw [e1] at hwa
        rw [e2] at hwb
        exact ⟨hwb, hwa⟩
    · exact h.within y t hy

theorem step (h : Solves T done s) {s' : Substitution} {a b : Term} (ha : a ∈ T) (hb : b ∈ T)
    (hstep : completeStep s a b = .ok s') : Solves T (done ++ [(a, b)]) s' := by
  rcases completeStep_ok hstep with ⟨heq, rfl⟩ | ⟨x, w, hne, rfl, hends⟩
  · refine ⟨h.acyclic, ?_, ?_, h.within⟩
    · intro p hp
      rcases List.mem_append.1 hp with hp | hp
      · exact h.equal p hp
      · obtain rfl := List.mem_singleton.1 hp
        exact heq
    · intro f hf
      exact h.forced f fun p hp => hf p (List.mem_append_left _ hp)
  · exact h.bind ha hb hne hends

end Solves

/-- the bindings that the loop has made for some of the pairs of two lists -/
theorem solves_of_overPairs {left right : List Term} {pairs : List (Term × Term)} {s : Substitution}
    (hpairs : pairs ⊆ left.zip right) (h : overPairs completeStep .empty pairs = .ok s) :
    Solves (left ++ right) pairs s := by
  refine overPairs_induction (fun done s s' a b hab hI hs => ?_) (Solves.start _) h
  obtain ⟨ha, hb⟩ := List.of_mem_zip (hpairs hab)
  exact hI.step (List.mem_append_left _ ha) (List.mem_append_right _ hb) hs

/-! ## The result -/

/-- what the complete unifier gives is what its pass over the pairs ends with, normalised -/
theorem complete_pass {left right : List Term} {σ : Substitution} (h : complete.unify left right = .ok σ) :
    left.length = right.length ∧ ∃ s, overPairs completeStep .empty (left.zip right) = .ok s ∧ σ = s.normalized := by
  simp only [unify] at h
  split_ifs at h with hlen
  refine ⟨by simpa using hlen, ?_⟩
  cases hpass : overPairs completeStep .empty (left.zip right) with
  | error e => simp [hpass, Except.map] at h
  | ok s =>
    rw [hpass] at h
    exact ⟨s, rfl, by simpa [Except.map] using h.symm⟩

theorem complete_ok {left right : List Term} {σ : Substitution} (h : complete.unify left right = .ok σ) :
    left.length = right.length ∧ ∃ s, Solves (left ++ right) (left.zip right) s ∧ σ = s.normalized := by
  obtain ⟨hlen, s, hpass, hσ⟩ := complete_pass h
  exact ⟨hlen, s, solves_of_overPairs (List.Subset.refl _) hpass, hσ⟩

/-- the complete unifier fails on lists of different length and on lists that no substitution makes equal -/
theorem complete_error {left right : List Term} {e : UnifyError} (h : complete.unify left right = .error e) :
    (left.length ≠ right.length ∧ e = .lengthMismatch left.length right.length) ∨
      (left.length = right.length ∧ (∃ a b, e = .constantClash a b) ∧
        ∀ θ : Substitution, ¬ θ.Unifies left right) := by
  simp only [unify] at h
  split_ifs at h with hlen
  · exact Or.inl ⟨hlen, by simpa using h.symm⟩
  · rw [ne_eq, not_not] at hlen
    right
    cases hpass : overPairs completeStep .empty (left.zip right) with
    | ok s => simp [hpass, Except.map] at h
    | error e' =>
      obtain rfl : e' = e := by simpa [hpass, Except.map] using h
      obtain ⟨done, a, b, rest, s, hpairs, hdone, hfail⟩ := overPairs_error hpass
      have hsub : done ⊆ left.zip right := fun p hp => by
        rw [hpairs]
        exact List.mem_append_left _ hp
      have hs := solves_of_overPairs hsub hdone
      obtain ⟨c, d, hcd, ha, hb, rfl⟩ := completeStep_error hfail
      refine ⟨hlen, ⟨_, _, rfl⟩, fun θ hθ => hcd ?_⟩
      -- a unifier would send `a` to `c` and `b` to `d`
      have heq := (map_eq_map_iff_zip hlen).1 hθ
      have hab : θ.apply a = θ.apply b := heq (a, b) (by rw [hpairs]; simp)
      have hwa := hs.map_walk (fun p hp => heq p (hsub hp)) a
      have hwb := hs.map_walk (fun p hp => heq p (hsub hp)) b
      rw [ha] at hwa
      rw [hb] at hwb
      exact Term.const.inj (hwa.trans (hab.trans hwb.symm))

/-- the complete unifier succeeds on lists that some substitution makes equal -/
theorem complete_ok_of_unifies {left right : List Term} {θ : Substitution} (h : θ.Unifies left right) :
    ∃ σ, complete.unify left right = .ok σ := by
  cases hu : complete.unify left right with
  | ok σ => exact ⟨σ, rfl⟩
  | error e =>
    rcases complete_error hu with ⟨hlen, -⟩ | ⟨-, -, hnone⟩
    · have hsame := congrArg List.length h
      rw [List.length_map, List.length_map] at hsame
      exact absurd hsame hlen
    · exact absurd h (hnone θ)

theorem complete_unifies {left right : List Term} {σ : Substitution} (h : complete.unify left right = .ok σ) :
    σ.Unifies left right := by
  obtain ⟨hlen, s, hs, rfl⟩ := complete_ok h
  refine (map_eq_map_iff_zip hlen).2 fun p hp => ?_
  rw [Substitution.apply_normalized, Substitution.apply_normalized]
  exact hs.equal p hp

/-- a variable with a binding is not met again in the terms bound to, and comes from the lists -/
theorem complete_solved {left right : List Term} {σ : Substitution} (h : complete.unify left right = .ok σ)
    {x : String} (hx : σ.isBound x = true) : (∀ y, σ.lookup y ≠ some (.var x)) ∧ Term.var x ∈ left ++ right := by
  obtain ⟨-, s, hs, rfl⟩ := complete_ok h
  refine ⟨hs.acyclic.lookup_normalized_ne hx, ?_⟩
  rw [Substitution.isBound_normalized] at hx
  obtain ⟨u, hu⟩ := Substitution.isBound_iff.1 hx
  exact (hs.within x u hu).1

theorem complete_mostGeneral {left right : List Term} {σ θ : Substitution} (h : complete.unify left right = .ok σ)
    (hθ : θ.Unifies left right) (t : Term) : θ.apply (σ.apply t) = θ.apply t := by
  obtain ⟨hlen, s, hs, rfl⟩ := complete_ok h
  rw [Substitution.apply_normalized]
  exact hs.map_walk ((map_eq_map_iff_zip hlen).1 hθ) t

/-- **The complete unifier is correct.** It reports a length mismatch exactly on lists of different length, a clash of
constants exactly when no substitution makes two lists of one length equal, and otherwise gives a substitution. The
substitution makes the lists equal in one application, binds variables of the lists only, to terms in which no bound
variable occurs, and is most general. -/
theorem complete_unify_correct (left right : List Term) :
    ((∃ m n, complete.unify left right = .error (.lengthMismatch m n)) ↔ left.length ≠ right.length) ∧
    (left.length = right.length →
      ((∃ σ, complete.unify left right = .ok σ) ↔ ∃ θ : Substitution, θ.Unifies left right) ∧
      ((∃ a b, complete.unify left right = .error (.constantClash a b)) ↔
        ¬ ∃ θ : Substitution, θ.Unifies left right)) ∧
    (∀ a b, complete.unify left right ≠ .error (.conflictingBinding a b)) ∧
    ∀ σ, complete.unify left right = .ok σ →
      σ.Unifies left right ∧
      (∀ x, σ.isBound x = true → (∀ y, σ.lookup y ≠ some (.var x)) ∧ Term.var x ∈ left ++ right) ∧
      ∀ θ : Substitution, θ.Unifies left right → ∀ t, θ.apply (σ.apply t) = θ.apply t := by
  refine ⟨⟨?_, ?_⟩, fun hlen => ?_, ?_, fun σ hσ => ?_⟩
  · rintro ⟨m, n, h⟩
    rcases complete_error h with ⟨hlen, -⟩ | ⟨-, ⟨a, b, he⟩, -⟩
    · exact hlen
    · cases he
  · intro hlen
    exact ⟨left.length, right.length, by simp only [unify, if_pos hlen]⟩
  · cases hu : complete.unify left right with
    | ok σ =>
      have hσ : ∃ θ : Substitution, θ.Unifies left right := ⟨σ, complete_unifies hu⟩
      refine ⟨⟨fun _ => hσ, fun _ => ⟨σ, rfl⟩⟩, ⟨?_, fun h => absurd hσ h⟩⟩
      rintro ⟨a, b, h⟩
      cases h
    | error e =>
      rcases complete_error hu with ⟨hne, -⟩ | ⟨-, ⟨a, b, rfl⟩, hnone⟩
      · exact absurd hlen hne
      · have hσ : ¬ ∃ θ : Substitution, θ.Unifies left right := fun ⟨θ, hθ⟩ => hnone θ hθ
        refine ⟨⟨?_, fun h => absurd h hσ⟩, ⟨fun _ => hσ, fun _ => ⟨a, b, rfl⟩⟩⟩
        rintro ⟨σ, h⟩
        cases h
  · intro a b h
    rcases complete_error h with ⟨-, he⟩ | ⟨-, ⟨c, d, he⟩, -⟩ <;> cases he
  · exact ⟨complete_unifies hσ, fun x hx => complete_solved hσ hx, fun θ hθ => complete_mostGeneral hσ hθ⟩

end Unifier

end Refutation
