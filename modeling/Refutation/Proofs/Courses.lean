/-
The course of a search, one inference at a time.

`Course settings input s agenda` says that a search from the state `input`, to which the input has been added, comes to the
state `s` with the inferences `agenda` of the current turn still to be taken in; between turns there are none. A search
goes along such a course to its end: `Ending` lists the ways in which it can end, and `search_ending` says that there are
no others. So what holds at every point of every course holds whenever the search looks at its working set; the final
working set is one of them (`ofClauses_course`, `ofFormulas_course`). `Course.all` carries along a course what the input
has and resolvents inherit, to every clause that is stored or noted; `Course.working` carries properties of working sets.
-/
import Refutation.Proofs.Derivations

namespace Refutation

/-- the clauses that the entry notes -/
def Journal.Entry.clauses : Entry → List Clause
  | .added c => [c]
  | .repeated c => [c]
  | .pivot _ c => [c]
  | .resolved left right c => [left, right, c]
  | _ => []

namespace Search

/-- the state at the start of a turn: the pivot is taken, counted and noted -/
def State.opened (s : State) (w : WorkingSet) (pivot : Clause) : State :=
  { s with working := w, steps := s.steps + 1 }.note (.pivot (s.steps + 1) pivot)

@[simp] theorem State.opened_working (s : State) (w : WorkingSet) (pivot : Clause) : (s.opened w pivot).working = w := rfl

/-- the search from `input` comes to the state, with the inferences of the turn that are listed still to be taken in -/
inductive Course (settings : Settings) (input : State) : State → List Inference → Prop where
  | start : Course settings input input.noteConflicts []
  | turn {s : State} {i : Nat} {w : WorkingSet} {pivot : Clause} (h : Course settings input s [])
      (hbudget : s.steps < settings.maxSteps) (hpivot : s.working.nextPivot = (some i, w))
      (hi : w.get? i = some pivot) :
      Course settings input (s.opened w pivot) (State.inferences settings w i pivot)
  | infer {s t : State} {x : Inference} {rest : List Inference} (h : Course settings input s (x :: rest))
      (hx : State.absorb [x] s = (t, false)) : Course settings input t rest

/-- the search from `input` ends in the state, for the reason given -/
inductive Ending (settings : Settings) (input : State) : State → Termination → Prop where
  | noClauses (h : input.working.isEmpty = true) : Ending settings input input .noClauses
  | emptyInput (h : Clause.empty ∈ input.working.clauses) : Ending settings input input.noteConflicts .contradiction
  | refuted {s : State} {x : Inference} {rest : List Inference} (h : Course settings input s (x :: rest))
      (hx : x.resolvent.isEmpty = true) :
      Ending settings input (s.count.note (.resolved x.left x.right x.resolvent)) .contradiction
  | exhausted {s : State} (h : Course settings input s []) (hwaiting : s.working.waiting = []) :
      Ending settings input s .supplyExhausted
  | stopped {s : State} (h : Course settings input s []) (hsteps : s.steps = settings.maxSteps)
      (hwaiting : s.working.waiting ≠ []) : Ending settings input s .stepLimit

variable {settings : Settings} {input s t : State} {agenda : List Inference}

/-! ## Invariants -/

/-- every clause that the state stores or notes has the property -/
structure State.All (P : Clause → Prop) (s : State) : Prop where
  stored : ∀ c ∈ s.working.clauses, P c
  noted : ∀ e ∈ s.journal, ∀ c ∈ e.clauses, P c

/-- the three clauses of the inference have the property -/
structure Inference.All (P : Clause → Prop) (x : Inference) : Prop where
  left : P x.left
  right : P x.right
  resolvent : P x.resolvent

namespace State.All

variable {P : Clause → Prop} {c : Clause} {w : WorkingSet} {x : Inference}

theorem note (h : s.All P) {e : Journal.Entry} (he : ∀ c ∈ e.clauses, P c) : (s.note e).All P where
  stored := h.stored
  noted := by
    intro f hf
    rw [note_journal, Array.mem_push] at hf
    rcases hf with hf | rfl
    · exact h.noted f hf
    · exact he

theorem noteConflicts (h : s.All P) : s.noteConflicts.All P where
  stored := by
    rw [noteConflicts_working]
    exact h.stored
  noted := by
    intro e he
    rw [noteConflicts_eq, Array.mem_append] at he
    rcases he with he | he
    · exact h.noted e he
    · obtain ⟨p, -, rfl⟩ := List.mem_map.1 (List.mem_toArray.1 he)
      simp [Journal.Entry.clauses]

theorem store (h : s.All P) (hc : P c) (hst : s.working.Stored c w) : { s with working := w }.All P where
  stored := by
    intro d hd
    rw [hst.clauses, Array.mem_push] at hd
    rcases hd with hd | rfl
    · exact h.stored d hd
    · exact hc
  noted := h.noted

theorem addClause (h : s.All P) (hc : P c) : (s.addClause c).All P := by
  rcases addClause_cases s c with ⟨-, e⟩ | ⟨w, hst, e⟩
  · rw [e]
    exact h.note (by simpa [Journal.Entry.clauses] using hc)
  · rw [e]
    exact (h.store hc hst).note (by simpa [Journal.Entry.clauses] using hc)

theorem addFormula (h : s.All P) {formula : String} (hread : ∀ c, Formula.read formula = .ok c → P c) :
    (s.addFormula formula).All P := by
  simp only [State.addFormula]
  cases hf : Formula.read formula with
  | error e => exact h.note (by simp [Journal.Entry.clauses])
  | ok c => exact h.addClause (hread c hf)

/-- a resolution is noted, whether its resolvent is stored or is the empty clause -/
theorem noteResolved (h : s.All P) (hx : x.All P) : (s.count.note (.resolved x.left x.right x.resolvent)).All P := by
  have hcount : s.count.All P := ⟨h.stored, h.noted⟩
  exact hcount.note (by simpa [Journal.Entry.clauses] using ⟨hx.left, hx.right, hx.resolvent⟩)

theorem keep (h : s.All P) (hx : x.All P) (hst : s.working.Stored x.resolvent w) : (s.keep x w).All P :=
  (h.noteResolved hx).store hx.resolvent hst

end State.All

namespace Course

/-- **What the input has and resolvents inherit, every clause has** that is stored or noted along a course or that is in
the inferences to come. -/
theorem all {P : Clause → Prop} (hinput : input.All P)
    (hstep : ∀ c d r, P c → P d → r ∈ resolvents settings.unifier c d → P r.clause)
    (h : Course settings input s agenda) : s.All P ∧ ∀ x ∈ agenda, x.All P := by
  induction h with
  | start => exact ⟨hinput.noteConflicts, by simp⟩
  | @turn s i w pivot _ _ hpivot hi ih =>
    have hw : ∀ c ∈ w.clauses, P c := by
      rw [(WorkingSet.nextPivot_some hpivot).clauses]
      exact ih.1.stored
    have hleft : P pivot := hw pivot (WorkingSet.mem_clauses_iff.2 ⟨i, hi⟩)
    have hopened : { s with working := w, steps := s.steps + 1 }.All P := ⟨hw, ih.1.noted⟩
    refine ⟨hopened.note (by simpa [Journal.Entry.clauses] using hleft), fun x hx => ?_⟩
    obtain ⟨rfl, hright, r, hr, hclause⟩ := State.mem_inferences hx
    refine ⟨hleft, hw _ hright, ?_⟩
    rw [← hclause]
    exact hstep _ _ r hleft (hw _ hright) (PairSelection.resolvents_subset _ _ _ _ hr)
  | @infer s t x rest _ hx ih =>
    obtain ⟨hs, hagenda⟩ := ih
    have hrest : ∀ y ∈ rest, y.All P := fun y hy => hagenda y (List.mem_cons_of_mem x hy)
    obtain ⟨-, ⟨-, rfl⟩ | ⟨w, hst, rfl⟩⟩ := State.absorb_single hx
    · exact ⟨⟨hs.stored, hs.noted⟩, hrest⟩
    · exact ⟨hs.keep (hagenda x List.mem_cons_self) hst, hrest⟩

/-- what taking a pivot and storing a clause with literals keep holds along a course -/
theorem working {P : WorkingSet → Prop} (hinput : P input.working) (hpop : ∀ w i w', P w → w.Popped i w' → P w')
    (hstore : ∀ w c w', c.isEmpty = false → P w → w.Stored c w' → P w') (h : Course settings input s agenda) :
    P s.working := by
  induction h with
  | start => rwa [State.noteConflicts_working]
  | turn _ _ hpivot _ ih => exact hpop _ _ _ ih (WorkingSet.nextPivot_some hpivot)
  | infer _ hx ih => exact State.absorb_working (fun y _ w w' hne hw hst => hstore w _ w' hne hw hst) ih hx

end Course

/-! ## Searches -/

/-- a pivot is the index of a stored clause -/
theorem State.Accounted.exists_pivot {i : Nat} {w : WorkingSet} (h : s.Accounted)
    (hpivot : s.working.nextPivot = (some i, w)) : ∃ pivot, w.get? i = some pivot := by
  obtain ⟨taken, -, haccounted⟩ := h
  exact WorkingSet.get?_of_lt (haccounted.pivot_lt (WorkingSet.nextPivot_some hpivot))

namespace Course

/-- the first inferences of a turn are taken in one by one, to the last of them or to the empty clause -/
theorem absorb {xs more : List Inference} {found : Bool} (h : Course settings input s (xs ++ more))
    (ht : State.absorb xs s = (t, found)) :
    (found = false ∧ Course settings input t more) ∨
      (found = true ∧ ∃ s' x rest, Course settings input s' (x :: rest) ∧ x.resolvent.isEmpty = true ∧
        t = s'.count.note (.resolved x.left x.right x.resolvent)) := by
  induction xs generalizing s with
  | nil =>
    obtain ⟨rfl, rfl⟩ := Prod.mk.inj ht
    exact Or.inl ⟨rfl, h⟩
  | cons x xs ih =>
    rw [← List.singleton_append, State.absorb_append] at ht
    rcases hx : State.absorb [x] s with ⟨s1, _ | _⟩
    · rw [hx] at ht
      exact ih (h.infer hx) ht
    · rw [hx] at ht
      obtain ⟨rfl, rfl⟩ := Prod.mk.inj ht
      refine Or.inr ⟨rfl, s, x, xs ++ more, h, ?_⟩
      rcases State.absorb_cases x [] s with ⟨hempty, e⟩ | ⟨-, ⟨-, e⟩ | ⟨w, -, e⟩⟩
      · rw [hx] at e
        exact ⟨hempty, (Prod.mk.inj e).1⟩
      · rw [hx] at e
        cases (Prod.mk.inj e).2
      · rw [hx] at e
        cases (Prod.mk.inj e).2

/-- a turn goes on with the course, to the next turn or to the empty clause -/
theorem turned {i : Nat} {w : WorkingSet} {found : Bool} (h : Course settings input s []) (hacc : s.Accounted)
    (hbudget : s.steps < settings.maxSteps) (hpivot : s.working.nextPivot = (some i, w))
    (ht : State.turn settings s i w = (t, found)) :
    (found = false ∧ Course settings input t []) ∨
      (found = true ∧ ∃ s' x rest, Course settings input s' (x :: rest) ∧ x.resolvent.isEmpty = true ∧
        t = s'.count.note (.resolved x.left x.right x.resolvent)) := by
  obtain ⟨pivot, hi⟩ := hacc.exists_pivot hpivot
  have hopened := h.turn hbudget hpivot hi
  rw [State.turn_of_get? hi] at ht
  rw [← List.append_nil (State.inferences settings w i pivot)] at hopened
  exact hopened.absorb ht

/-- the turns that are left of the budget go on with the course -/
theorem saturate {budget : Nat} {τ : Termination} (h : Course settings input s []) (hacc : s.Accounted)
    (hbudget : s.steps + budget = settings.maxSteps) (ht : State.saturate settings budget s = (t, τ)) :
    Ending settings input t τ := by
  induction budget generalizing s with
  | zero =>
    rcases State.saturate_zero_cases settings s with ⟨hwaiting, e⟩ | ⟨hwaiting, e⟩
    · rw [e] at ht
      obtain ⟨rfl, rfl⟩ := Prod.mk.inj ht
      exact .stopped h hbudget hwaiting
    · rw [e] at ht
      obtain ⟨rfl, rfl⟩ := Prod.mk.inj ht
      exact .exhausted h hwaiting
  | succ budget ih =>
    rcases State.saturate_succ_cases settings budget s with ⟨hwaiting, e⟩ | ⟨i, w, s1, hpivot, hturn⟩
    · rw [e] at ht
      obtain ⟨rfl, rfl⟩ := Prod.mk.inj ht
      exact .exhausted h hwaiting
    · rcases hturn with ⟨hresult, e⟩ | ⟨hresult, e⟩
      · rw [e] at ht
        obtain ⟨rfl, rfl⟩ := Prod.mk.inj ht
        rcases h.turned hacc (by omega) hpivot hresult with ⟨hfound, -⟩ | ⟨-, s', x, rest, hs', hx, rfl⟩
        · cases hfound
        · exact .refuted hs' hx
      · rw [e] at ht
        have hsteps := State.turn_steps hresult
        rcases h.turned hacc (by omega) hpivot hresult with ⟨-, hs1⟩ | ⟨hfound, -⟩
        · exact ih hs1 (State.turn_accounted hacc hpivot hresult) (by omega) ht
        · cases hfound

end Course

/-- **A search follows its course to one of these ends.** It does not start when there are no clauses or the empty clause is
among them. -/
theorem State.search_ending (settings : Settings) (hsteps : input.steps = 0) (hacc : input.Accounted) :
    Ending settings input (input.search settings).1 (input.search settings).2 := by
  rcases hsearch : input.search settings with ⟨t, τ⟩
  rcases search_cases hsearch with ⟨rfl, hnone, rfl⟩ | ⟨rfl, hempty, rfl⟩ | ⟨-, hsat⟩
  · exact .noClauses hnone
  · exact .emptyInput hempty
  · refine Course.start.saturate (noteConflicts_accounted hacc) ?_ hsat
    rw [noteConflicts_steps, hsteps, Nat.zero_add]

/-- the working set in which a search ends is one of its course -/
theorem Ending.course {τ : Termination} (h : Ending settings input t τ) :
    ∃ s agenda, Course settings input s agenda ∧ t.working = s.working := by
  have hstart : Course settings input input.noteConflicts [] := .start
  cases h with
  | noClauses _ => exact ⟨_, _, hstart, (State.noteConflicts_working input).symm⟩
  | emptyInput _ => exact ⟨_, _, hstart, rfl⟩
  | refuted hcourse _ => exact ⟨_, _, hcourse, rfl⟩
  | exhausted hcourse _ => exact ⟨_, _, hcourse, rfl⟩
  | stopped hcourse _ _ => exact ⟨_, _, hcourse, rfl⟩

/-- what the input has and resolvents inherit, every clause has that is stored or noted when the search ends -/
theorem Ending.all {P : Clause → Prop} {τ : Termination} (hinput : input.All P)
    (hstep : ∀ c d r, P c → P d → r ∈ resolvents settings.unifier c d → P r.clause) (h : Ending settings input t τ) :
    t.All P := by
  cases h with
  | noClauses _ => exact hinput
  | emptyInput _ => exact hinput.noteConflicts
  | refuted hcourse _ =>
    obtain ⟨hs, hagenda⟩ := hcourse.all hinput hstep
    exact hs.noteResolved (hagenda _ List.mem_cons_self)
  | exhausted hcourse _ => exact (hcourse.all hinput hstep).1
  | stopped hcourse _ _ => exact (hcourse.all hinput hstep).1

/-- what the turns made at the end of a search have to do with the clauses stored -/
theorem Ending.turns {τ : Termination} (hacc : t.Accounted) (h : Ending settings input t τ) :
    t.steps ≤ t.working.size ∧ (τ = .supplyExhausted → t.steps = t.working.size) ∧
      (τ = .stepLimit → t.steps = settings.maxSteps ∧ settings.maxSteps < t.working.size) := by
  obtain ⟨taken, htaken, haccounted⟩ := hacc
  have hsum := haccounted.length_taken_add_waiting
  refine ⟨by omega, ?_, ?_⟩
  · rintro rfl
    cases h with
    | exhausted _ hwaiting =>
      rw [hwaiting, List.length_nil] at hsum
      omega
  · rintro rfl
    cases h with
    | stopped _ hsteps hwaiting =>
      have hpos := List.length_pos_iff.2 hwaiting
      omega

theorem ofClauses_ending (settings : Settings) (clauses : List Clause) :
    Ending settings (ofClauses settings clauses) ((ofClauses settings clauses).search settings).1
      ((ofClauses settings clauses).search settings).2 :=
  State.search_ending settings (ofClauses_steps settings clauses) (ofClauses_accounted settings clauses)

theorem ofFormulas_ending (settings : Settings) (formulas : List String) :
    Ending settings (ofFormulas settings formulas) ((ofFormulas settings formulas).search settings).1
      ((ofFormulas settings formulas).search settings).2 :=
  State.search_ending settings (ofFormulas_steps settings formulas) (ofFormulas_accounted settings formulas)

theorem ofClauses_course (settings : Settings) (clauses : List Clause) :
    ∃ s agenda, Course settings (ofClauses settings clauses) s agenda ∧
      (ofClauses settings clauses).final settings = s.working :=
  (ofClauses_ending settings clauses).course

theorem ofFormulas_course (settings : Settings) (formulas : List String) :
    ∃ s agenda, Course settings (ofFormulas settings formulas) s agenda ∧
      (ofFormulas settings formulas).final settings = s.working :=
  (ofFormulas_ending settings formulas).course

theorem State.start_all (settings : Settings) (P : Clause → Prop) : (State.start settings).All P where
  stored := by simp [State.start, WorkingSet.empty]
  noted := by simp [State.start]

theorem ofClauses_all {P : Clause → Prop} {clauses : List Clause} (settings : Settings) (h : ∀ c ∈ clauses, P c) :
    (ofClauses settings clauses).All P :=
  List.foldlRecOn clauses _ (State.start_all settings P) fun _ hs c hc => hs.addClause (h c hc)

theorem ofFormulas_all {P : Clause → Prop} {formulas : List String} (settings : Settings)
    (h : ∀ c ∈ Formula.readAll formulas, P c) : (ofFormulas settings formulas).All P :=
  List.foldlRecOn formulas _ (State.start_all settings P) fun _ hs f hf =>
    hs.addFormula fun c hc => h c (Formula.mem_readAll.2 ⟨f, hf, hc⟩)

end Search

end Refutation
