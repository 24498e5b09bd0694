/-
Traces can be replayed.

Some events of a trace bring a clause: an input clause that is new, or a resolvent. `Replays u input cs es` says that the
events `es` bring the clauses `cs`, one each and in this order, and that nothing is missing to check them: an input clause
is one of `input`, and a resolvent is one of two clauses at different places before it. At every point of a search the
events so far replay to the clauses of the working set (`Course.replays`), so the trace of an attempt replays to the clauses
that are kept at its end, and after them to the empty clause when there is a contradiction (`trace_replays`).
-/
import Refutation.Proofs.Refusals
import Refutation.Proofs.Traces

namespace Refutation

namespace Trace.Event

/-- the text of the clause that an event brings -/
def clause? : Event → Option String
  | .clauseAdded clause => some clause
  | .resolution _ _ resolvent => some resolvent
  | _ => none

/-- the event brings a clause -/
def brings (e : Event) : Bool := e.clause?.isSome

end Trace.Event

/-- the events bring the clauses from the input by resolutions, each from two clauses brought before -/
inductive Replays (u : Unifier) (input : List Clause) : List Clause → List Trace.Event → Prop where
  | nil : Replays u input [] []
  | added {cs : List Clause} {es : List Trace.Event} {c : Clause} (h : Replays u input cs es) (hc : c ∈ input) :
      Replays u input (cs ++ [c]) (es ++ [.clauseAdded c.text])
  | resolution {cs : List Clause} {es : List Trace.Event} {i j : Nat} {c d : Clause} {r : Resolvent}
      (h : Replays u input cs es) (hij : i ≠ j) (hi : cs[i]? = some c) (hj : cs[j]? = some d)
      (hr : r ∈ resolvents u c d) : Replays u input (cs ++ [r.clause]) (es ++ [.resolution c.text d.text r.clause.text])

namespace Replays

variable {u : Unifier} {input cs : List Clause} {es : List Trace.Event}

/-- the events show the texts of the clauses, in order -/
theorem texts (h : Replays u input cs es) : es.filterMap Trace.Event.clause? = cs.map Clause.text := by
  induction h with
  | nil => rfl
  | added _ _ ih =>
    rw [List.filterMap_append, ih, List.map_append]
    rfl
  | resolution _ _ _ _ _ ih =>
    rw [List.filterMap_append, ih, List.map_append]
    rfl

end Replays

namespace Search

variable {settings : Settings} {u : Unifier} {input : List Clause} {s t : State}

namespace State

/-- the events so far that bring a clause -/
def brought (s : State) : List Trace.Event := s.events.filter Trace.Event.brings

/-- the events so far replay to the clauses of the working set -/
def Replayed (u : Unifier) (input : List Clause) (s : State) : Prop := Replays u input s.working.clauses.toList s.brought

theorem note_brought (s : State) (e : Journal.Entry) :
    (s.note e).brought = s.brought ++ e.event?.toList.filter Trace.Event.brings := by
  rw [brought, note_events, List.filter_append, brought]

/-- an entry whose event, if it has one, brings no clause changes nothing for a replay -/
theorem Replayed.note {e : Journal.Entry} (h : s.Replayed u input)
    (he : e.event?.toList.filter Trace.Event.brings = []) : (s.note e).Replayed u input := by
  rw [Replayed, note_brought, he, List.append_nil]
  exact h

/-! ## The input -/

theorem addClause_replayed {c : Clause} (h : s.Replayed u input) (hc : c ∈ input) : (s.addClause c).Replayed u input := by
  rcases addClause_cases s c with ⟨-, e⟩ | ⟨w, hst, e⟩
  · rw [e]
    exact h.note rfl
  · rw [e, Replayed, note_brought, note_working, hst.clauses, Array.toList_push]
    exact Replays.added h hc

theorem addFormula_replayed {formula : String} (h : s.Replayed u input)
    (hread : ∀ c, Formula.read formula = .ok c → c ∈ input) : (s.addFormula formula).Replayed u input := by
  simp only [addFormula]
  split
  · rename_i c hc
    exact addClause_replayed h (hread c hc)
  · exact h.note rfl

end State

theorem foldl_replayed (formulas : List String) (h : s.Replayed u input)
    (hread : ∀ f ∈ formulas, ∀ c, Formula.read f = .ok c → c ∈ input) :
    (formulas.foldl State.addFormula s).Replayed u input := by
  induction formulas generalizing s with
  | nil => exact h
  | cons f formulas ih =>
    refine ih (State.addFormula_replayed h (hread f List.mem_cons_self)) fun g hg => ?_
    exact hread g (List.mem_cons_of_mem f hg)

theorem ofFormulas_replayed (settings : Settings) (formulas : List String) :
    (ofFormulas settings formulas).Replayed settings.unifier (Formula.readAll formulas) :=
  foldl_replayed formulas Replays.nil fun f hf _ hc => Formula.mem_readAll.2 ⟨f, hf, hc⟩

/-! ## The course -/

/-- the inference resolves two clauses of the working set that have different indices -/
def Inference.Founded (u : Unifier) (w : WorkingSet) (x : Inference) : Prop :=
  ∃ i j, i ≠ j ∧ w.get? i = some x.left ∧ w.get? j = some x.right ∧ ∃ r ∈ resolvents u x.left x.right, r.clause = x.resolvent

theorem Inference.Founded.mono {x : Inference} {w w' : WorkingSet} (hext : w.Extends w') (h : x.Founded u w) :
    x.Founded u w' := by
  obtain ⟨i, j, hij, hi, hj, hr⟩ := h
  exact ⟨i, j, hij, hext.get? hi, hext.get? hj, hr⟩

theorem State.founded_of_mem {w : WorkingSet} {i : Nat} {pivot : Clause} {x : Inference} (hi : w.get? i = some pivot)
    (hx : x ∈ inferences settings w i pivot) : x.Founded settings.unifier w := by
  obtain ⟨j, hij, hleft, hj, r, hr, hclause⟩ := exists_partner hx
  rw [← hleft] at hi
  exact ⟨i, j, hij, hi, hj, r, PairSelection.resolvents_subset _ _ _ _ hr, hclause⟩

/-- a founded inference goes on with a replay -/
theorem Inference.Founded.replays {w : WorkingSet} {es : List Trace.Event} {x : Inference} (hx : x.Founded u w)
    (h : Replays u input w.clauses.toList es) :
    Replays u input (w.clauses.toList ++ [x.resolvent])
      (es ++ [.resolution x.left.text x.right.text x.resolvent.text]) := by
  obtain ⟨i, j, hij, hi, hj, r, hr, hclause⟩ := hx
  rw [WorkingSet.get?, ← Array.getElem?_toList] at hi hj
  rw [← hclause]
  exact .resolution h hij hi hj hr

/-- **A search replays at every point of its course,** and the inferences to come are founded. -/
theorem Course.replays {start : State} {agenda : List Inference} (hstart : start.Replayed settings.unifier input)
    (h : Course settings start s agenda) :
    s.Replayed settings.unifier input ∧ ∀ x ∈ agenda, x.Founded settings.unifier s.working := by
  induction h with
  | start =>
    refine ⟨?_, by simp⟩
    rw [State.Replayed, State.brought, State.noteConflicts_events, State.noteConflicts_working]
    exact hstart
  | @turn s i w pivot _ _ hpivot hi ih =>
    refine ⟨?_, fun x hx => State.founded_of_mem hi hx⟩
    have hpopped : Replays settings.unifier input w.clauses.toList s.brought := by
      rw [(WorkingSet.nextPivot_some hpivot).clauses]
      exact ih.1
    exact State.Replayed.note (s := { s with working := w, steps := s.steps + 1 }) hpopped rfl
  | @infer s t x rest _ hx ih =>
    obtain ⟨hs, hagenda⟩ := ih
    have hrest : ∀ y ∈ rest, y.Founded settings.unifier s.working := fun y hy => hagenda y (List.mem_cons_of_mem x hy)
    obtain ⟨-, ⟨-, rfl⟩ | ⟨w, hst, rfl⟩⟩ := State.absorb_single hx
    · exact ⟨hs, hrest⟩
    · refine ⟨?_, fun y hy => (hrest y hy).mono hst.toExtends⟩
      rw [State.Replayed, State.keep, State.note_brought, State.note_working, hst.clauses, Array.toList_push]
      exact (hagenda x List.mem_cons_self).replays hs

/-- The events of a search that has ended replay to the clauses kept. After a contradiction one more event brings the empty
clause; the input does not. -/
theorem Ending.replays {start : State} {τ : Termination} (hstart : start.Replayed settings.unifier input)
    (hnonempty : Clause.empty ∉ start.working.clauses) (h : Ending settings start t τ) :
    (τ ≠ .contradiction ∧ t.Replayed settings.unifier input) ∨
      (τ = .contradiction ∧ ∃ es left right, t.brought = es ++ [.resolution left right Clause.emptyText] ∧
        Replays settings.unifier input t.working.clauses.toList es ∧
        Replays settings.unifier input (t.working.clauses.toList ++ [.empty]) t.brought) := by
  cases h with
  | noClauses _ => exact Or.inl ⟨by simp, hstart⟩
  | emptyInput hempty => exact absurd hempty hnonempty
  | exhausted hcourse _ => exact Or.inl ⟨by simp, (hcourse.replays hstart).1⟩
  | stopped hcourse _ _ => exact Or.inl ⟨by simp, (hcourse.replays hstart).1⟩
  | @refuted s x rest hcourse hx =>
    obtain ⟨hs, hagenda⟩ := hcourse.replays hstart
    have hlast := (hagenda x List.mem_cons_self).replays hs
    rw [Clause.isEmpty_iff.1 hx] at hlast ⊢
    have hbrought : (s.count.note (.resolved x.left x.right .empty)).brought =
        s.brought ++ [.resolution x.left.text x.right.text Clause.emptyText] := State.note_brought _ _
    refine Or.inr ⟨rfl, s.brought, _, _, hbrought, hs, ?_⟩
    rw [hbrought]
    exact hlast

/-- the last event of a trace brings no clause -/
theorem brings_lastEvent (o : Outcome) (maxSteps : Nat) : (o.lastEvent maxSteps).brings = false := by
  rw [Outcome.lastEvent]
  cases o.termination <;> rfl

theorem State.run_brought (s : State) (settings : Settings) :
    (s.run settings).outcome.trace.events.filter Trace.Event.brings = (s.search settings).1.brought := by
  rw [run_trace, Trace.events_ofEvents, List.filter_append, List.filter_singleton, brings_lastEvent]
  exact List.append_nil _

/-- **Every trace is a derivation.** For every list of formulas and all settings, the events of the trace that bring a clause
bring, in order, the clauses kept at the end and then, if the attempt proves its formulas, the empty clause, by a
resolution. Each is a clause of the formulas, or a resolvent of two clauses at different places before it, and the event
shows the texts of these clauses. When clauses are known by their text, no text is brought twice, the empty clause at the
end left aside. -/
theorem trace_replays (settings : Settings) (formulas : List String) :
    let o := (prove settings formulas).outcome
    let kept := ((ofFormulas settings formulas).final settings).clauses.toList
    let brought := o.trace.events.filter Trace.Event.brings
    Replays settings.unifier (Formula.readAll formulas) (kept ++ if o.proved then [.empty] else []) brought ∧
      (o.proved = true → ∃ left right, brought.getLast? = some (.resolution left right Clause.emptyText)) ∧
      (settings.dedup = .canonical →
        ((if o.proved then brought.dropLast else brought).filterMap Trace.Event.clause?).Nodup) := by
  intro o kept brought
  have hbrought : brought = ((ofFormulas settings formulas).search settings).1.brought := State.run_brought _ _
  have hproved : o.proved = (((ofFormulas settings formulas).search settings).2 == .contradiction) := rfl
  -- clauses known by their text are kept once, so what replays to them has no text twice
  have hdistinct : ∀ es, Replays settings.unifier (Formula.readAll formulas) kept es → settings.dedup = .canonical →
      (es.filterMap Trace.Event.clause?).Nodup := by
    intro es hes hdedup
    obtain ⟨taken, -, haccounted⟩ := ofFormulas_search_accounted settings formulas
    obtain ⟨s, agenda, hcourse, hfinal⟩ := ofFormulas_course settings formulas
    have hkey : ((ofFormulas settings formulas).final settings).dedup = .canonical := by
      rw [hfinal, hcourse.telling.1.dedup, hdedup]
    have hkeys : (kept.map ((ofFormulas settings formulas).final settings).dedup.key).Nodup := haccounted.distinct
    rw [hkey] at hkeys
    rw [hes.texts]
    exact hkeys
  rcases (ofFormulas_ending settings formulas).replays (ofFormulas_replayed settings formulas)
      (ofFormulas_telling settings formulas).nonempty with
    ⟨hτ, hreplayed⟩ | ⟨hτ, es, left, right, hes, hkept, hreplays⟩
  · have hnot : o.proved = false := by
      rw [hproved]
      simpa using hτ
    simp only [hnot, hbrought, Bool.false_eq_true, if_false, List.append_nil, false_implies, true_and]
    exact ⟨hreplayed, hdistinct _ hreplayed⟩
  · have hyes : o.proved = true := by
      rw [hproved, hτ]
      rfl
    simp only [hyes, hbrought, if_true, true_implies]
    refine ⟨hreplays, ⟨left, right, ?_⟩, ?_⟩
    · rw [hes, List.getLast?_concat]
    · rw [hes, List.dropLast_concat]
      exact hdistinct es hkept

end Search

end Refutation
