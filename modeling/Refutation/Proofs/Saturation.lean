/-
No inference is lost.

A search resolves two clauses when one of them is a unit, or when there is no unit clause at all (`Due`). Two such clauses
are settled in one of the two orders once both have been pivots: the pivot that came later was resolved with the other
one. `Progress` is that invariant. A turn keeps it (`Progress.turn`), and in a search that ends because no clause waits
every two clauses that are due are settled (`progress_of_exhausted`); `settled_of_exhausted` says it of a search on clauses.
-/
import Refutation.Proofs.Resolvents
import Refutation.Proofs.SearchRuns

namespace Refutation.Search

open WorkingSet

/-- every resolvent that the two clauses contribute, in this order, has a literal and is known -/
def Settled (settings : Settings) (w : WorkingSet) (c d : Clause) : Prop :=
  ∀ r ∈ settings.pairSelection.resolvents settings.unifier c d, r.clause.isEmpty = false ∧ w.knows r.clause = true

/-- the two clauses are to be resolved: one is a unit, or there are no units -/
def Due (w : WorkingSet) (c d : Clause) : Prop :=
  c.isUnit = true ∨ d.isUnit = true ∨ ∀ e ∈ w.clauses, e.isUnit = false

/-- what holds of the working set after every turn -/
structure Progress (settings : Settings) (input : List Clause) (w : WorkingSet) : Prop where
  dedup : w.dedup = settings.dedup
  keys : w.KeysExact
  input : ∀ c ∈ input, w.knows c = true
  nonempty : Clause.empty ∉ w.clauses
  /-- two clauses that no longer wait are settled in the order in which the later pivot comes first -/
  settled : ∀ i j c d, i ≠ j → w.get? i = some c → w.get? j = some d → ¬ w.Queued i → ¬ w.Queued j → Due w c d →
    Settled settings w c d ∨ Settled settings w d c

variable {settings : Settings} {input : List Clause} {w w' : WorkingSet} {c d : Clause}

theorem Settled.mono (hknows : ∀ e, w.knows e = true → w'.knows e = true) (h : Settled settings w c d) :
    Settled settings w' c d := by
  intro r hr
  obtain ⟨hne, hknown⟩ := h r hr
  exact ⟨hne, hknows _ hknown⟩

theorem Due.symm (h : Due w c d) : Due w d c := by
  rcases h with h | h | h
  · exact Or.inr (Or.inl h)
  · exact Or.inl h
  · exact Or.inr (Or.inr h)

theorem Due.of_subset (hsub : ∀ e ∈ w.clauses, e ∈ w'.clauses) (h : Due w' c d) : Due w c d := by
  rcases h with h | h | h
  · exact Or.inl h
  · exact Or.inr (Or.inl h)
  · exact Or.inr (Or.inr fun e he => h e (hsub e he))

/-! ## The partners of a pivot -/

theorem mem_unitIndices {i : Nat} : i ∈ w.unitIndices ↔ ∃ c, w.get? i = some c ∧ c.isUnit = true := by
  simp only [unitIndices, List.mem_filter, List.mem_range, Option.any_eq_true]
  exact ⟨fun h => h.2, fun ⟨c, hi, hc⟩ => ⟨get?_lt hi, c, hi, hc⟩⟩

/-- a clause that is due with the pivot is among its partners -/
theorem Due.mem_otherPartners {i j : Nat} (h : Due w c d) (hij : i ≠ j) (hj : w.get? j = some d) :
    j ∈ State.otherPartners w i c := by
  have hpartner : j ∈ w.partners c := by
    simp only [partners]
    split_ifs with hall
    · exact List.mem_range.2 (get?_lt hj)
    · simp only [Bool.or_eq_true, List.isEmpty_iff, not_or] at hall
      refine mem_unitIndices.2 ⟨d, hj, ?_⟩
      rcases h with h | h | h
      · exact absurd h hall.1
      · exact h
      · obtain ⟨k, hk⟩ := List.exists_mem_of_ne_nil _ hall.2
        obtain ⟨e, he, hunit⟩ := mem_unitIndices.1 hk
        rw [h e (mem_clauses_iff.2 ⟨k, he⟩)] at hunit
        cases hunit
  exact List.mem_filter.2 ⟨hpartner, by simpa using hij.symm⟩

namespace State

variable {s t : State}

theorem mem_inferences_of_partner {i j : Nat} {r : Resolvent} (hj : j ∈ otherPartners w i c) (hd : w.get? j = some d)
    (hr : r ∈ settings.pairSelection.resolvents settings.unifier c d) :
    ⟨c, d, r.clause⟩ ∈ inferences settings w i c := by
  refine List.mem_flatMap.2 ⟨j, hj, ?_⟩
  simp only [inferencesWith, hd]
  exact List.mem_map.2 ⟨r, hr, rfl⟩

/-! ## Turns -/

/-- inferences without the empty clause among them only add clauses, and their resolvents are known afterwards -/
theorem absorb_known {xs : List Inference} (h : absorb xs s = (t, false)) :
    s.working.Extends t.working ∧ ∀ x ∈ xs, x.resolvent.isEmpty = false ∧ t.working.knows x.resolvent = true := by
  induction xs generalizing s with
  | nil =>
    obtain ⟨rfl, -⟩ := Prod.mk.inj h
    exact ⟨Extends.refl _, by simp⟩
  | cons x xs ih =>
    rcases absorb_cases x xs s with ⟨-, e⟩ | ⟨hempty, ⟨hknown, e⟩ | ⟨w, hst, e⟩⟩
    · rw [e] at h
      cases (Prod.mk.inj h).2
    · rw [e] at h
      obtain ⟨hext, hrest⟩ := ih h
      exact ⟨hext, List.forall_mem_cons.2 ⟨⟨hempty, hext.knows _ hknown⟩, hrest⟩⟩
    · rw [e] at h
      obtain ⟨hext, hrest⟩ := ih h
      exact ⟨hst.toExtends.trans hext, List.forall_mem_cons.2 ⟨⟨hempty, hext.knows _ hst.knows_self⟩, hrest⟩⟩

theorem absorb_keysExact {xs : List Inference} {found : Bool} (hs : s.working.KeysExact)
    (h : absorb xs s = (t, found)) : t.working.KeysExact :=
  absorb_working (fun _ _ _ _ _ hw hst => hst.keysExact hw) hs h

theorem absorb_nonempty {xs : List Inference} {found : Bool} (hs : Clause.empty ∉ s.working.clauses)
    (h : absorb xs s = (t, found)) : Clause.empty ∉ t.working.clauses :=
  absorb_working (P := fun w => Clause.empty ∉ w.clauses) (fun _ _ _ _ hne hw hst => hst.nonempty hne hw) hs h

end State

namespace Progress

/-- taking a pivot changes no clause and no key; what was settled stays so, and the pivot is still to be resolved -/
theorem settled_of_popped {i a b : Nat} (h : Progress settings input w) (hp : w.Popped i w') (hab : a ≠ b)
    (ha : w'.get? a = some c) (hb : w'.get? b = some d) (hqa : ¬ w'.Queued a) (hqb : ¬ w'.Queued b) (hai : a ≠ i)
    (hbi : b ≠ i) (hdue : Due w' c d) : Settled settings w' c d ∨ Settled settings w' d c := by
  have hknows : ∀ e, w.knows e = true → w'.knows e = true := fun e he => by rwa [hp.knows]
  have hqueued : ∀ {k}, k ≠ i → ¬ w'.Queued k → ¬ w.Queued k := by
    intro k hk hq hw
    rcases (hp.queued k).1 hw with hki | hw'
    · exact hk hki
    · exact hq hw'
  have hdue : Due w c d := hdue.of_subset fun e he => by rwa [hp.clauses]
  rw [hp.get?] at ha hb
  rcases h.settled a b c d hab ha hb (hqueued hai hqa) (hqueued hbi hqb) hdue with hset | hset
  · exact Or.inl (hset.mono hknows)
  · exact Or.inr (hset.mono hknows)

theorem popped {i : Nat} (h : Progress settings input w) (hp : w.Popped i w') (hi : w'.get? i = none) :
    Progress settings input w' where
  dedup := hp.dedup.trans h.dedup
  keys := hp.keysExact h.keys
  input := fun c hc => (hp.knows c).trans (h.input c hc)
  nonempty := by
    rw [hp.clauses]
    exact h.nonempty
  settled := fun a b c d hab ha hb hqa hqb hdue => by
    refine h.settled_of_popped hp hab ha hb hqa hqb ?_ ?_ hdue
    · rintro rfl
      rw [hi] at ha
      cases ha
    · rintro rfl
      rw [hi] at hb
      cases hb

/-- **A turn loses no inference.** -/
theorem turn {s t : State} {i : Nat} (h : Progress settings input s.working)
    (hpivot : s.working.nextPivot = (some i, w)) (ht : State.turn settings s i w = (t, false)) :
    Progress settings input t.working := by
  have hp := nextPivot_some hpivot
  cases hi : w.get? i with
  | none =>
    simp only [State.turn, hi] at ht
    obtain ⟨rfl, -⟩ := Prod.mk.inj ht
    exact h.popped hp hi
  | some pivot =>
    rw [State.turn_of_get? hi] at ht
    obtain ⟨hext, hknown⟩ := State.absorb_known ht
    have hext : w.Extends t.working := hext
    have hempty : Clause.empty ∉ w.clauses := by
      rw [hp.clauses]
      exact h.nonempty
    -- the pivot is settled with every clause that was there before the turn
    have hnew : ∀ {j e}, i ≠ j → w.get? j = some e → Due w pivot e → Settled settings t.working pivot e := by
      intro j e hij hj hdue r hr
      have hpartner := hdue.mem_otherPartners hij hj
      exact hknown _ (State.mem_inferences_of_partner hpartner hj hr)
    -- a clause that no longer waits was there before the turn
    have hold : ∀ {j e}, t.working.get? j = some e → ¬ t.working.Queued j → w.get? j = some e ∧ ¬ w.Queued j := by
      intro j e hj hq
      have hlt : j < w.size := by
        by_contra hge
        exact hq (hext.fresh j (by omega) (get?_lt hj))
      obtain ⟨e', he'⟩ := get?_of_lt hlt
      rw [hext.get? he'] at hj
      exact ⟨he'.trans hj, fun h => hq (hext.queued j h)⟩
    refine ⟨(hext.dedup.trans hp.dedup).trans h.dedup, State.absorb_keysExact (hp.keysExact h.keys) ht,
      fun c hc => hext.knows c ((hp.knows c).trans (h.input c hc)), State.absorb_nonempty hempty ht, ?_⟩
    · intro a b c d hab ha hb hqa hqb hdue
      obtain ⟨ha, hqa⟩ := hold ha hqa
      obtain ⟨hb, hqb⟩ := hold hb hqb
      have hdue : Due w c d := hdue.of_subset fun e he => hext.mem he
      by_cases hai : a = i
      · subst hai
        obtain rfl := Option.some.inj (hi.symm.trans ha)
        exact Or.inl (hnew hab hb hdue)
      · by_cases hbi : b = i
        · subst hbi
          obtain rfl := Option.some.inj (hi.symm.trans hb)
          exact Or.inr (hnew (Ne.symm hab) ha hdue.symm)
        · rcases h.settled_of_popped hp hab ha hb hqa hqb hai hbi hdue with hset | hset
          · exact Or.inl (hset.mono hext.knows)
          · exact Or.inr (hset.mono hext.knows)

/-- before the first turn all clauses wait -/
theorem start (settings : Settings) (input : List Clause)
    (hempty : Clause.empty ∉ ((WorkingSet.empty settings.dedup).insertAll input).clauses) :
    Progress settings input ((WorkingSet.empty settings.dedup).insertAll input) where
  dedup := (insertAll_extends _ input).dedup
  keys := insertAll_keysExact (keysExact_empty _)
  input := fun _ hc => knows_insertAll hc
  nonempty := hempty
  settled := fun i _ _ _ _ hi _ hq =>
    absurd ((insertAll_extends (WorkingSet.empty settings.dedup) input).fresh i (Nat.zero_le i) (get?_lt hi)) hq

end Progress

/-- **A search that ends for lack of clauses has settled all that is due.** -/
theorem State.progress_of_exhausted {s t : State} (hs : s.working = (WorkingSet.empty settings.dedup).insertAll input)
    (h : s.search settings = (t, .supplyExhausted)) :
    Progress settings input t.working ∧ ∀ i, ¬ t.working.Queued i := by
  rcases search_cases h with ⟨hτ, -⟩ | ⟨hτ, -⟩ | ⟨hempty, hsat⟩
  · cases hτ
  · cases hτ
  · have hstart : Progress settings input s.noteConflicts.working := by
      rw [noteConflicts_working, hs]
      exact Progress.start settings input (hs ▸ hempty)
    have hturn : ∀ s i w, Progress settings input s.working → s.working.nextPivot = (some i, w) →
        ∀ t, turn settings s i w = (t, false) → Progress settings input t.working :=
      fun s i w hs hpivot t ht => hs.turn hpivot ht
    rcases saturate_cases (I := fun s => Progress settings input s.working) hturn hstart hsat with
      ⟨hτ, -⟩ | ⟨-, hprogress, hqueued⟩ | ⟨hτ, -⟩
    · cases hτ
    · exact ⟨hprogress, hqueued⟩
    · cases hτ

/-- **No inference is lost.** When a search on clauses ends for lack of pivots, take two clauses of its final working set,
stored under different indices, the first a unit, or any two when no unit is stored. In one of the two orders every
resolvent that they contribute has a literal, and its key under the settings is among the known keys. -/
theorem settled_of_exhausted (settings : Settings) (clauses : List Clause)
    (h : (proveClauses settings clauses).outcome.termination = .supplyExhausted) :
    let w := (ofClauses settings clauses).final settings
    w.dedup = settings.dedup ∧
      ∀ i j c d, i ≠ j → w.get? i = some c → w.get? j = some d →
        (c.isUnit = true ∨ ∀ e ∈ w.clauses, e.isUnit = false) → Settled settings w c d ∨ Settled settings w d c := by
  intro w
  have hsearch : (ofClauses settings clauses).search settings =
      (((ofClauses settings clauses).search settings).1, .supplyExhausted) := Prod.ext rfl h
  obtain ⟨hprogress, hqueued⟩ := State.progress_of_exhausted (ofClauses_working settings clauses) hsearch
  refine ⟨hprogress.dedup, fun i j c d hij hi hj hunit => ?_⟩
  have hdue : Due w c d := hunit.imp_right Or.inr
  exact hprogress.settled i j c d hij hi hj (hqueued i) (hqueued j) hdue

/-- a fact, a rule and a denial of another instance -/
def openChain : List Clause :=
  [⟨[⟨true, "P", [.const "A"]⟩]⟩, ⟨[⟨false, "P", [.var "x"]⟩, ⟨true, "Q", [.var "x"]⟩]⟩, ⟨[⟨false, "Q", [.const "B"]⟩]⟩]

/-- the fact and the rule are settled; `Q(A)` is then stored as fourth clause -/
theorem settled_openChain :
    ((ofClauses {} openChain).final {}).get? 3 = some ⟨[⟨true, "Q", [.const "A"]⟩]⟩ ∧
      (Settled {} ((ofClauses {} openChain).final {}) ⟨[⟨true, "P", [.const "A"]⟩]⟩
          ⟨[⟨false, "P", [.var "x"]⟩, ⟨true, "Q", [.var "x"]⟩]⟩ ∨
        Settled {} ((ofClauses {} openChain).final {}) ⟨[⟨false, "P", [.var "x"]⟩, ⟨true, "Q", [.var "x"]⟩]⟩
          ⟨[⟨true, "P", [.const "A"]⟩]⟩) :=
  ⟨by decide +kernel, (settled_of_exhausted {} openChain (by decide +kernel)).2 0 1 _ _ (by decide) (by decide +kernel)
    (by decide +kernel) (Or.inl rfl)⟩

end Refutation.Search
