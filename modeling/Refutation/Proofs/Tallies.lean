/-
Traces and counters agree.

The trace of an attempt on formulas has three parts: one event for each formula (`inputEvents`), the resolutions that brought
a clause, and one event that says why the attempt stopped. The counters are kept apart from the trace, at other places of
the search. `Tallied` ties them together at every point of a search, and `Outcome.Shaped` says all that the trace and the
counters of an attempt have to do with each other; every attempt is of this shape (`trace_shaped`).
-/
import Refutation.Proofs.Refusals
import Refutation.Proofs.Traces

namespace Refutation

/-- the event adds an input clause -/
def Trace.Event.adds : Trace.Event → Bool
  | .clauseAdded _ => true
  | _ => false

/-- the event of a formula, given the clauses of the formulas before it -/
def inputEvent (k : Dedup) (before : List Clause) (formula : String) : Trace.Event :=
  match Formula.read formula with
  | .error e => .parseFailed formula e.message
  | .ok c => if k.key c ∈ before.map k.key then .duplicateClause c.text else .clauseAdded c.text

/-- the events of the formulas, in order -/
def inputEvents (k : Dedup) (formulas : List String) : List Trace.Event :=
  formulas.mapIdx fun n formula => inputEvent k (Formula.readAll (formulas.take n)) formula

/-- what the trace and the counters of an attempt on formulas, with the resolutions given, have to do with each other -/
structure Outcome.Shaped (settings : Settings) (formulas : List String) (resolutions : List Trace.Event) (o : Outcome) :
    Prop where
  numbers : o.trace.steps.map Trace.Step.number = List.range' 1 o.trace.size
  events : o.trace.events = inputEvents settings.dedup formulas ++ resolutions ++ [o.lastEvent settings.maxSteps]
  form : ∀ e ∈ resolutions, ∃ left right resolvent, e = .resolution left right resolvent
  noClauses : o.termination = .noClauses → resolutions = []
  proved : o.proved = true ↔ o.termination = .contradiction
  /-- the empty clause is resolved but not kept -/
  kept : o.tally.clausesKept + (if o.proved then 1 else 0) =
    o.trace.events.countP Trace.Event.adds + resolutions.length
  generated : resolutions.length ≤ o.tally.resolventsGenerated
  budget : o.tally.steps ≤ settings.maxSteps
  pivots : o.tally.steps ≤ o.tally.clausesKept
  exhausted : o.termination = .supplyExhausted → o.tally.steps = o.tally.clausesKept
  stopped : o.termination = .stepLimit → o.tally.steps = settings.maxSteps ∧ settings.maxSteps < o.tally.clausesKept

namespace Search

variable {settings : Settings} {input s t : State} {agenda : List Inference}

/-! ## The input -/

theorem inputEvents_concat (k : Dedup) (formulas : List String) (formula : String) :
    inputEvents k (formulas ++ [formula]) =
      inputEvents k formulas ++ [inputEvent k (Formula.readAll formulas) formula] := by
  rw [inputEvents, List.mapIdx_concat, List.take_left, inputEvents]
  congr 1
  refine List.mapIdx_eq_mapIdx_iff.2 fun n hn => ?_
  rw [List.take_append_of_le_length hn.le]

theorem ofFormulas_concat (settings : Settings) (formulas : List String) (formula : String) :
    ofFormulas settings (formulas ++ [formula]) = (ofFormulas settings formulas).addFormula formula := by
  rw [ofFormulas, List.foldl_append]
  rfl

/-- a clause is known when a formula before it has a clause with its key -/
theorem ofFormulas_knows (settings : Settings) (formulas : List String) (c : Clause) :
    (ofFormulas settings formulas).working.knows c = true ↔
      settings.dedup.key c ∈ (Formula.readAll formulas).map settings.dedup.key := by
  have htelling := ofFormulas_telling settings formulas
  rw [List.mem_map]
  constructor
  · intro hknown
    obtain ⟨d, hd, hkey⟩ := htelling.keys.exists_of_knows hknown
    rw [htelling.dedup] at hkey
    rw [ofFormulas_working] at hd
    rcases WorkingSet.mem_insertAll hd with hd | hd
    · simp [WorkingSet.empty] at hd
    · exact ⟨d, hd, hkey⟩
  · rintro ⟨d, hd, hkey⟩
    have hknown : (ofFormulas settings formulas).working.knows d = true := by
      rw [ofFormulas_working]
      exact WorkingSet.knows_insertAll hd
    rwa [WorkingSet.knows, htelling.dedup, hkey, ← htelling.dedup] at hknown

theorem addFormula_events (settings : Settings) (formulas : List String) (formula : String) :
    ((ofFormulas settings formulas).addFormula formula).events =
      (ofFormulas settings formulas).events ++ [inputEvent settings.dedup (Formula.readAll formulas) formula] := by
  simp only [State.addFormula, inputEvent]
  cases Formula.read formula with
  | error e => exact State.note_events _ _
  | ok c =>
    have hknows := ofFormulas_knows settings formulas c
    rcases State.addClause_cases (ofFormulas settings formulas) c with ⟨hknown, e⟩ | ⟨w, hst, e⟩
    · simp only [e, if_pos (hknows.1 hknown)]
      exact State.note_events _ _
    · have hnew : settings.dedup.key c ∉ (Formula.readAll formulas).map settings.dedup.key := fun hmem => by
        rw [← hknows, hst.unknown] at hmem
        cases hmem
      simp only [e, if_neg hnew]
      exact State.note_events _ _

/-- **One event for each formula,** by what reading it gives and whether its key is new. -/
theorem ofFormulas_events (settings : Settings) (formulas : List String) :
    (ofFormulas settings formulas).events = inputEvents settings.dedup formulas := by
  induction formulas using List.reverseRecOn with
  | nil => rfl
  | append_singleton formulas formula ih => rw [ofFormulas_concat, addFormula_events, ih, inputEvents_concat]

theorem addFormula_size (formula : String) (h : s.working.size = s.events.countP Trace.Event.adds) :
    (s.addFormula formula).working.size = (s.addFormula formula).events.countP Trace.Event.adds := by
  simp only [State.addFormula]
  cases Formula.read formula with
  | error e =>
    rw [State.note_events, State.note_working, List.countP_append, h]
    rfl
  | ok c =>
    rcases State.addClause_cases s c with ⟨-, e⟩ | ⟨w, hst, e⟩
    · simp only [e, State.note_events, State.note_working, List.countP_append, h]
      rfl
    · simp only [e, State.note_events, State.note_working, List.countP_append, hst.size, h]
      rfl

/-- the clauses before the first turn are those that were added -/
theorem ofFormulas_size (settings : Settings) (formulas : List String) :
    (ofFormulas settings formulas).working.size =
      (inputEvents settings.dedup formulas).countP Trace.Event.adds := by
  rw [← ofFormulas_events]
  induction formulas using List.reverseRecOn with
  | nil => rfl
  | append_singleton formulas formula ih =>
    rw [ofFormulas_concat]
    exact addFormula_size formula ih

/-! ## The course -/

/-- the search has come from `input` to `s` with the resolutions shown, each of which stored a clause -/
structure Tallied (input s : State) (resolutions : List Trace.Event) : Prop where
  events : s.events = input.events ++ resolutions
  form : ∀ e ∈ resolutions, ∃ left right resolvent, e = .resolution left right resolvent
  size : s.working.size = input.working.size + resolutions.length
  generated : resolutions.length ≤ s.generated

namespace Tallied

variable {resolutions : List Trace.Event}

theorem start (input : State) : Tallied input input.noteConflicts [] where
  events := by rw [State.noteConflicts_events, List.append_nil]
  form := by simp
  size := by rw [State.noteConflicts_working, List.length_nil, Nat.add_zero]
  generated := Nat.zero_le _

theorem opened {i : Nat} {w : WorkingSet} (h : Tallied input s resolutions)
    (hpivot : s.working.nextPivot = (some i, w)) (pivot : Clause) : Tallied input (s.opened w pivot) resolutions where
  events := by
    rw [State.opened, State.note_events, ← h.events]
    exact List.append_nil _
  form := h.form
  size := by
    rw [← h.size, State.opened_working, WorkingSet.size, (WorkingSet.nextPivot_some hpivot).clauses, WorkingSet.size]
  generated := h.generated

theorem count (h : Tallied input s resolutions) : Tallied input s.count resolutions :=
  ⟨h.events, h.form, h.size, h.generated.trans (Nat.le_succ _)⟩

theorem form_concat (h : Tallied input s resolutions) (x : Inference) :
    ∀ e ∈ resolutions ++ [.resolution x.left.text x.right.text x.resolvent.text],
      ∃ left right resolvent, e = Trace.Event.resolution left right resolvent := by
  intro e he
  rcases List.mem_append.1 he with he | he
  · exact h.form e he
  · exact ⟨_, _, _, List.mem_singleton.1 he⟩

theorem keep {x : Inference} {w : WorkingSet} (h : Tallied input s resolutions)
    (hst : s.working.Stored x.resolvent w) :
    Tallied input (s.keep x w) (resolutions ++ [.resolution x.left.text x.right.text x.resolvent.text]) where
  events := by rw [State.keep_events, h.events, List.append_assoc]
  form := h.form_concat x
  size := by rw [State.keep_working, hst.size, h.size, List.length_append, List.length_singleton, Nat.add_assoc]
  generated := by
    rw [List.length_append, List.length_singleton]
    exact Nat.succ_le_succ h.generated

end Tallied

theorem Course.tallied (h : Course settings input s agenda) : ∃ resolutions, Tallied input s resolutions := by
  induction h with
  | start => exact ⟨[], Tallied.start input⟩
  | @turn s i w pivot _ _ hpivot _ ih =>
    obtain ⟨resolutions, h⟩ := ih
    exact ⟨resolutions, h.opened hpivot pivot⟩
  | @infer s t x rest _ hx ih =>
    obtain ⟨resolutions, h⟩ := ih
    obtain ⟨-, ⟨-, rfl⟩ | ⟨w, hst, rfl⟩⟩ := State.absorb_single hx
    · exact ⟨resolutions, h.count⟩
    · exact ⟨_, h.keep hst⟩

theorem Course.steps_le (hinput : input.steps = 0) (h : Course settings input s agenda) :
    s.steps ≤ settings.maxSteps := by
  induction h with
  | start =>
    rw [State.noteConflicts_steps, hinput]
    exact Nat.zero_le _
  | turn _ hbudget _ _ _ => exact hbudget
  | infer _ hx ih => rwa [State.absorb_steps hx]

theorem Ending.steps_le {τ : Termination} (hinput : input.steps = 0) (h : Ending settings input t τ) :
    t.steps ≤ settings.maxSteps := by
  cases h with
  | noClauses _ => exact hinput.trans_le (Nat.zero_le _)
  | emptyInput _ => exact Course.start.steps_le hinput
  | @refuted s _ _ hcourse _ =>
    have hsteps : s.steps ≤ settings.maxSteps := hcourse.steps_le hinput
    exact hsteps
  | exhausted hcourse _ => exact hcourse.steps_le hinput
  | stopped hcourse _ _ => exact hcourse.steps_le hinput

/-- what the events and counters at the end of a search have to do with those at its start -/
theorem Ending.tallied {τ : Termination} (hnonempty : Clause.empty ∉ input.working.clauses)
    (h : Ending settings input t τ) :
    ∃ resolutions, t.events = input.events ++ resolutions ∧
      (∀ e ∈ resolutions, ∃ left right resolvent, e = .resolution left right resolvent) ∧
      (τ = .noClauses → resolutions = []) ∧
      t.working.size + (if τ == .contradiction then 1 else 0) = input.working.size + resolutions.length ∧
      resolutions.length ≤ t.generated := by
  cases h with
  | noClauses _ => exact ⟨[], by simp, by simp, fun _ => rfl, rfl, Nat.zero_le _⟩
  | emptyInput hempty => exact absurd hempty hnonempty
  | exhausted hcourse _ =>
    obtain ⟨resolutions, h⟩ := hcourse.tallied
    exact ⟨resolutions, h.events, h.form, by simp, h.size, h.generated⟩
  | stopped hcourse _ _ =>
    obtain ⟨resolutions, h⟩ := hcourse.tallied
    exact ⟨resolutions, h.events, h.form, by simp, h.size, h.generated⟩
  | @refuted s x rest hcourse hx =>
    obtain ⟨resolutions, h⟩ := hcourse.tallied
    refine ⟨resolutions ++ [.resolution x.left.text x.right.text x.resolvent.text], ?_, h.form_concat x,
      by simp, ?_, ?_⟩
    · rw [State.note_events, State.count_events, h.events, List.append_assoc]
      rfl
    · rw [if_pos (by decide), State.note_working, State.count_working, h.size, List.length_append, List.length_singleton,
        Nat.add_assoc]
    · rw [List.length_append, List.length_singleton]
      exact Nat.succ_le_succ h.generated

/-! ## Attempts -/

/-- resolutions and the last event add no input clause -/
theorem countP_adds {resolutions : List Trace.Event} (inputs : List Trace.Event) (o : Outcome) (maxSteps : Nat)
    (h : ∀ e ∈ resolutions, ∃ left right resolvent, e = .resolution left right resolvent) :
    (inputs ++ resolutions ++ [o.lastEvent maxSteps]).countP Trace.Event.adds = inputs.countP Trace.Event.adds := by
  have hresolutions : resolutions.countP Trace.Event.adds = 0 := by
    refine List.countP_eq_zero.2 fun e he => ?_
    obtain ⟨left, right, resolvent, rfl⟩ := h e he
    simp [Trace.Event.adds]
  have hlast : [o.lastEvent maxSteps].countP Trace.Event.adds = 0 := by
    rw [Outcome.lastEvent]
    cases o.termination <;> rfl
  rw [List.countP_append, List.countP_append, hresolutions, hlast, Nat.add_zero]

/-- the trace of an attempt on formulas shows one event for each formula, the resolutions, and why the attempt stopped -/
theorem prove_events (settings : Settings) (formulas : List String) :
    ∃ resolutions, (prove settings formulas).outcome.trace.events = inputEvents settings.dedup formulas ++ resolutions ++
        [(prove settings formulas).outcome.lastEvent settings.maxSteps] ∧
      ∀ e ∈ resolutions, ∃ left right resolvent, e = .resolution left right resolvent := by
  obtain ⟨resolutions, hevents, hform, -⟩ :=
    (ofFormulas_ending settings formulas).tallied (ofFormulas_telling settings formulas).nonempty
  refine ⟨resolutions, ?_, hform⟩
  have htrace := congrArg Trace.events (State.run_trace (ofFormulas settings formulas) settings)
  rw [Trace.events_ofEvents, hevents, ofFormulas_events] at htrace
  exact htrace

/-- **Trace and counters agree.** For every list of formulas and all settings: the steps of the trace are numbered from 1;
there is one event for each formula in order, then come the resolutions and one last event, the one for the reason to stop.
The formulas are proved exactly after a contradiction. The clauses kept are those added and one for each resolution, but for
the empty clause; there are no more resolutions than resolvents. No more turns are made than the budget allows or clauses
are kept; every clause had its turn when the supply is exhausted, and the whole budget is used, with a clause left over, when
the search stops at the step limit. -/
theorem trace_shaped (settings : Settings) (formulas : List String) :
    ∃ resolutions, (prove settings formulas).outcome.Shaped settings formulas resolutions := by
  have hending := ofFormulas_ending settings formulas
  have hbudget := hending.steps_le (ofFormulas_steps settings formulas)
  obtain ⟨hpivots, hexhausted, hstopped⟩ := hending.turns (ofFormulas_search_accounted settings formulas)
  obtain ⟨resolutions, hevents, hform, hnoClauses, hsize, hgenerated⟩ :=
    hending.tallied (ofFormulas_telling settings formulas).nonempty
  have htrace : (prove settings formulas).outcome.trace = .ofEvents (inputEvents settings.dedup formulas ++ resolutions ++
      [(prove settings formulas).outcome.lastEvent settings.maxSteps]) := by
    rw [← ofFormulas_events, ← hevents]
    exact State.run_trace _ _
  have hadded : (prove settings formulas).outcome.trace.events.countP Trace.Event.adds =
      (ofFormulas settings formulas).working.size := by
    rw [htrace, Trace.events_ofEvents, countP_adds _ _ _ hform, ofFormulas_size]
  exact ⟨resolutions, {
    numbers := by rw [htrace, Trace.numbers_ofEvents]
    events := by rw [htrace, Trace.events_ofEvents]
    form := hform
    noClauses := hnoClauses
    proved := beq_iff_eq
    kept := by
      rw [hadded]
      exact hsize
    generated := hgenerated
    budget := hbudget
    pivots := hpivots
    exhausted := hexhausted
    stopped := hstopped }⟩

end Search

end Refutation
