/-
The trace that an attempt leaves.

The steps of a trace are its events, numbered from 1; the trace of the first events has the first steps. `State.events`
is what a search has shown so far. The trace of an attempt shows the events of its search and one more, which says why the
attempt stopped (`run_trace`). Along a search states only grow (`State.Grows`).
-/
import Refutation.Proofs.SearchRuns

namespace Refutation

namespace Trace

@[simp] theorem events_ofEvents (es : List Event) : (ofEvents es).events = es := by
  have hevent : (Step.event ∘ fun p : Event × Nat => (⟨p.2, p.1⟩ : Step)) = Prod.fst := rfl
  rw [events, ofEvents, List.map_map, hevent, List.zipIdx_map_fst]

/-- steps are numbered from 1 -/
theorem numbers_ofEvents (es : List Event) :
    (ofEvents es).steps.map Step.number = List.range' 1 (ofEvents es).size := by
  have hnumber : (Step.number ∘ fun p : Event × Nat => (⟨p.2, p.1⟩ : Step)) = Prod.snd := rfl
  rw [size, ofEvents, List.map_map, hnumber, List.zipIdx_map_snd, List.length_map, List.length_zipIdx]

theorem ofEvents_append (es fs : List Event) :
    (ofEvents (es ++ fs)).steps = (ofEvents es).steps ++ (fs.zipIdx (1 + es.length)).map fun (e, n) => ⟨n, e⟩ := by
  simp only [ofEvents, List.zipIdx_append, List.map_append]

theorem ofEvents_prefix {es fs : List Event} (h : es <+: fs) : (ofEvents es).steps <+: (ofEvents fs).steps := by
  obtain ⟨rest, rfl⟩ := h
  rw [ofEvents_append]
  exact List.prefix_append _ _

theorem dropLast_ofEvents (es : List Event) (e : Event) :
    (ofEvents (es ++ [e])).steps.dropLast = (ofEvents es).steps := by
  rw [ofEvents_append]
  exact List.dropLast_concat

end Trace

/-- the event at the end of a trace, by the reason for which the attempt stopped -/
def Outcome.lastEvent (o : Outcome) (maxSteps : Nat) : Trace.Event :=
  match o.termination with
  | .contradiction => .contradiction
  | .noClauses => .noUsableClauses
  | .supplyExhausted => .supplyExhausted o.tally.steps
  | .stepLimit => .stepLimitReached maxSteps

namespace Search.State

variable {settings : Settings} {s t u : State}

/-- the events that the journal shows -/
def events (s : State) : List Trace.Event := s.journal.toList.filterMap Journal.Entry.event?

@[simp] theorem note_events (s : State) (e : Journal.Entry) : (s.note e).events = s.events ++ e.event?.toList := by
  rw [events, note_journal, Array.toList_push, List.filterMap_append, events]
  cases h : e.event? <;> simp [h]

@[simp] theorem count_events (s : State) : s.count.events = s.events := rfl

@[simp] theorem keep_events (s : State) (i : Inference) (w : WorkingSet) :
    (s.keep i w).events = s.events ++ [.resolution i.left.text i.right.text i.resolvent.text] :=
  note_events _ _

/-- the predicates with several arities are for the log only -/
@[simp] theorem noteConflicts_events (s : State) : s.noteConflicts.events = s.events := by
  have hnone : ∀ conflicts : List (String × List Nat),
      (conflicts.map fun p => Journal.Entry.mixedArities p.1 p.2).filterMap Journal.Entry.event? = [] := by
    intro conflicts
    rw [List.filterMap_map]
    exact List.filterMap_eq_nil_iff.2 fun p _ => rfl
  rw [noteConflicts_eq, events, Array.toList_append, List.filterMap_append, hnone, List.append_nil, events]

/-- the counters at the end of an attempt are those of its search -/
theorem run_tally (s : State) (settings : Settings) :
    (s.run settings).outcome.tally =
      { steps := (s.search settings).1.steps, clausesKept := (s.search settings).1.working.size,
        resolventsGenerated := (s.search settings).1.generated } := rfl

/-- **The trace of an attempt** shows what the search has shown, and then why it stopped. -/
theorem run_trace (s : State) (settings : Settings) :
    (s.run settings).outcome.trace =
      .ofEvents ((s.search settings).1.events ++ [(s.run settings).outcome.lastEvent settings.maxSteps]) := by
  rcases hsearch : s.search settings with ⟨t, τ⟩
  simp only [run, hsearch, conclude, Attempt.outcome, Journal.trace, Outcome.lastEvent]
  have hevents : ∀ u : State, u.journal.toList.filterMap Journal.Entry.event? = u.events := fun _ => rfl
  rw [hevents, note_events, note_events]
  cases τ <;> simp [closing, Journal.Entry.event?]

/-! ## Growth -/

/-- `t` comes later than `s` in a search: the journal goes on, counters and clauses do not get fewer -/
structure Grows (s t : State) : Prop where
  journal : s.journal.toList <+: t.journal.toList
  steps : s.steps ≤ t.steps
  size : s.working.size ≤ t.working.size
  generated : s.generated ≤ t.generated

namespace Grows

theorem refl (s : State) : Grows s s := ⟨List.prefix_refl _, le_rfl, le_rfl, le_rfl⟩

theorem trans (h1 : Grows s t) (h2 : Grows t u) : Grows s u :=
  ⟨h1.journal.trans h2.journal, h1.steps.trans h2.steps, h1.size.trans h2.size, h1.generated.trans h2.generated⟩

theorem events (h : Grows s t) : s.events <+: t.events := h.journal.filterMap _

theorem count (s : State) : Grows s s.count :=
  ⟨List.prefix_refl _, le_rfl, le_rfl, Nat.le_succ _⟩

theorem note (s : State) (e : Journal.Entry) : Grows s (s.note e) := by
  refine ⟨?_, le_rfl, le_rfl, le_rfl⟩
  rw [note_journal, Array.toList_push]
  exact List.prefix_append _ _

theorem keep {i : Inference} {w : WorkingSet} (hst : s.working.Stored i.resolvent w) : Grows s (s.keep i w) := by
  refine ⟨?_, le_rfl, ?_, Nat.le_succ _⟩
  · rw [keep_journal, Array.toList_push]
    exact List.prefix_append _ _
  · rw [keep_working, hst.size]
    exact Nat.le_succ _

end Grows

theorem absorb_grows (xs : List Inference) (s : State) : Grows s (absorb xs s).1 := by
  induction xs generalizing s with
  | nil => exact Grows.refl s
  | cons x xs ih =>
    rcases absorb_cases x xs s with ⟨-, e⟩ | ⟨-, ⟨-, e⟩ | ⟨w, hst, e⟩⟩
    · rw [e]
      exact (Grows.count s).trans (Grows.note _ _)
    · rw [e]
      exact (Grows.count s).trans (ih _)
    · rw [e]
      exact (Grows.keep hst).trans (ih _)

theorem turn_grows {i : Nat} {w : WorkingSet} {found : Bool} (hpivot : s.working.nextPivot = (some i, w))
    (h : turn settings s i w = (t, found)) : Grows s t := by
  obtain rfl : (turn settings s i w).1 = t := congrArg Prod.fst h
  have hsize : s.working.size ≤ w.size := by
    rw [WorkingSet.size, WorkingSet.size, (WorkingSet.nextPivot_some hpivot).clauses]
  have hopen : Grows s { s with working := w, steps := s.steps + 1 } :=
    ⟨List.prefix_refl _, Nat.le_succ _, hsize, le_rfl⟩
  cases hi : w.get? i with
  | none =>
    simp only [turn, hi]
    exact hopen
  | some pivot =>
    rw [turn_of_get? hi]
    exact (hopen.trans (Grows.note _ _)).trans (absorb_grows _ _)

/-- **Turns only add.** -/
theorem saturate_grows (settings : Settings) (budget : Nat) (s : State) : Grows s (saturate settings budget s).1 := by
  induction budget generalizing s with
  | zero => exact Grows.refl s
  | succ budget ih =>
    rcases saturate_succ_cases settings budget s with ⟨-, e⟩ | ⟨i, w, t, hpivot, ⟨hresult, e⟩ | ⟨hresult, e⟩⟩
    · rw [e]
      exact Grows.refl s
    · rw [e]
      exact turn_grows hpivot hresult
    · rw [e]
      exact (turn_grows hpivot hresult).trans (ih t)

end Search.State

end Refutation
