/-
Input that brings no clause.

A formula that is rejected, or whose clause has the key of a clause before it, leaves an entry in the journal and nothing
else. A search never reads the journal. So to strip the journal of these entries (`State.strip`) and to search comes to the
same in either order (`run_strip`): each operation of a search is shown to commute with it, from the note of an entry to the
whole run. The formulas that are left when the others are taken out (`contributing`) lead to the stripped state
(`ofFormulas_contributing`), and so to the same outcome but for those events (`idle_input_neutral`).
-/
import Refutation.Proofs.Tallies

namespace Refutation

/-- the entry notes an input that brought no clause -/
def Journal.Entry.idle : Entry → Bool
  | .rejected .. | .repeated .. => true
  | _ => false

/-- the event shows an input that brought no clause -/
def Trace.Event.idle : Event → Bool
  | .parseFailed .. | .duplicateClause .. => true
  | _ => false

/-- the formula has a clause, and none of the clauses before it has the same key -/
def contributes (k : Dedup) (before : List Clause) (formula : String) : Bool :=
  match Formula.read formula with
  | .error _ => false
  | .ok c => k.key c ∉ before.map k.key

/-- The formulas without those that are rejected and without those whose clause has the key of an earlier one. -/
def contributing (k : Dedup) (formulas : List String) : List String :=
  (formulas.zipIdx.filter fun (formula, n) => contributes k (Formula.readAll (formulas.take n)) formula).map Prod.fst

namespace Journal

/-- the entries that note no idle input -/
def strip (entries : List Entry) : List Entry := entries.filter (!·.idle)

theorem strip_append (xs ys : List Entry) : strip (xs ++ ys) = strip xs ++ strip ys := List.filter_append xs ys

/-- an entry is idle when its event is -/
theorem idle_of_event {e : Entry} {v : Trace.Event} (h : e.event? = some v) : v.idle = e.idle := by
  cases e <;> simp only [Entry.event?, Option.some.injEq, reduceCtorEq] at h <;> subst h <;> rfl

theorem filterMap_event_strip (entries : List Entry) :
    (strip entries).filterMap Entry.event? = (entries.filterMap Entry.event?).filter (!·.idle) := by
  induction entries with
  | nil => rfl
  | cons e entries ih =>
    unfold strip at ih ⊢
    cases hevent : e.event? with
    | none =>
      rw [List.filterMap_cons_none hevent, ← ih, List.filter_cons]
      split_ifs
      · rw [List.filterMap_cons_none hevent]
      · rfl
    | some v =>
      rw [List.filterMap_cons_some hevent, List.filter_cons, List.filter_cons, idle_of_event hevent]
      split_ifs
      · rw [List.filterMap_cons_some hevent, ih]
      · exact ih

end Journal

namespace Search

/-- the attempt without the entries of idle input -/
def Attempt.strip (a : Attempt) : Attempt := { a with journal := Journal.strip a.journal }

namespace State

variable {settings : Settings}

/-- the state without the entries of idle input -/
def strip (s : State) : State := { s with journal := (Journal.strip s.journal.toList).toArray }

@[simp] theorem strip_working (s : State) : s.strip.working = s.working := rfl

@[simp] theorem strip_steps (s : State) : s.strip.steps = s.steps := rfl

theorem strip_note_of_idle {e : Journal.Entry} (s : State) (h : e.idle = true) : (s.note e).strip = s.strip := by
  simp [strip, Journal.strip, note, List.filter_append, h]

theorem strip_note {e : Journal.Entry} (s : State) (h : e.idle = false) : (s.note e).strip = s.strip.note e := by
  simp [strip, Journal.strip, note, List.filter_append, h]

/-! ## Searches -/

theorem absorb_strip (xs : List Inference) (s : State) :
    absorb xs s.strip = ((absorb xs s).1.strip, (absorb xs s).2) := by
  induction xs generalizing s with
  | nil => rfl
  | cons x xs ih =>
    have hnote : ∀ t : State, t.strip.note (.resolved x.left x.right x.resolvent) =
        (t.note (.resolved x.left x.right x.resolvent)).strip := fun t => (strip_note t rfl).symm
    simp only [absorb, strip_working]
    split_ifs with hempty
    · exact congrArg (·, true) (hnote s.count)
    · rcases hins : s.working.insertDerived x.resolvent with ⟨_ | k, w⟩
      · exact ih s.count
      · simp only
        rw [← ih]
        exact congrArg (absorb xs) (hnote { s.count with working := w })

theorem turn_strip (s : State) (i : Nat) (w : WorkingSet) :
    turn settings s.strip i w = ((turn settings s i w).1.strip, (turn settings s i w).2) := by
  cases hi : w.get? i with
  | none =>
    simp only [turn, hi]
    rfl
  | some pivot =>
    rw [turn_of_get? hi, turn_of_get? hi, ← absorb_strip, strip_note _ rfl]
    rfl

theorem saturate_strip (budget : Nat) (s : State) :
    saturate settings budget s.strip = ((saturate settings budget s).1.strip, (saturate settings budget s).2) := by
  induction budget generalizing s with
  | zero => rfl
  | succ budget ih =>
    unfold saturate
    rw [strip_working]
    rcases hpivot : s.working.nextPivot with ⟨_ | i, w⟩
    · rfl
    · simp only [turn_strip]
      rcases hturn : turn settings s i w with ⟨t, _ | _⟩
      · exact ih t
      · rfl

theorem noteConflicts_strip (s : State) : s.strip.noteConflicts = s.noteConflicts.strip := by
  have hnone : ∀ conflicts : List (String × List Nat),
      Journal.strip (conflicts.map fun p => .mixedArities p.1 p.2) = conflicts.map fun p => .mixedArities p.1 p.2 := by
    intro conflicts
    refine List.filter_eq_self.2 fun e he => ?_
    obtain ⟨p, -, rfl⟩ := List.mem_map.1 he
    rfl
  rw [noteConflicts_eq, noteConflicts_eq]
  simp only [strip, Array.toList_append, Journal.strip_append, hnone]
  simp

theorem search_strip (s : State) :
    s.strip.search settings = ((s.search settings).1.strip, (s.search settings).2) := by
  unfold search
  rw [strip_working, noteConflicts_strip]
  split_ifs
  · rfl
  · rfl
  · exact saturate_strip _ _

theorem conclude_strip (s : State) (τ : Termination) : s.strip.conclude settings τ = (s.conclude settings τ).strip := by
  have hclosing : (s.closing settings τ).idle = false := by cases τ <;> rfl
  have hnotes : ∀ e, e = s.closing settings τ → (s.strip.note e).note (.finished τ s.steps s.working.size) =
      ((s.note e).note (.finished τ s.steps s.working.size)).strip := by
    rintro e rfl
    rw [strip_note _ rfl, strip_note s hclosing]
  have hsame : s.strip.closing settings τ = s.closing settings τ := rfl
  unfold conclude Attempt.strip
  simp only [hsame, strip_steps, strip_working, hnotes _ rfl]
  simp [strip]

/-- **A search does not read its journal:** what it notes and where it ends is the same without the entries of idle input. -/
theorem run_strip (s : State) : s.strip.run settings = (s.run settings).strip := by
  unfold run
  rw [search_strip]
  exact conclude_strip _ _

end State

/-! ## The input -/

theorem contributing_concat (k : Dedup) (formulas : List String) (formula : String) :
    contributing k (formulas ++ [formula]) =
      contributing k formulas ++ if contributes k (Formula.readAll formulas) formula then [formula] else [] := by
  have hbefore : ∀ p ∈ formulas.zipIdx,
      contributes k (Formula.readAll ((formulas ++ [formula]).take p.2)) p.1 =
        contributes k (Formula.readAll (formulas.take p.2)) p.1 := by
    intro p hp
    rw [List.take_append_of_le_length (List.snd_lt_of_mem_zipIdx hp).le]
  unfold contributing
  rw [List.zipIdx_append, List.filter_append, List.map_append, List.filter_congr hbefore]
  congr 1
  simp only [List.zipIdx_singleton, Nat.zero_add, List.filter_singleton, List.take_left]
  cases contributes k (Formula.readAll formulas) formula <;> rfl

/-- a formula that contributes is added to a state with or without the entries of idle input, another leaves no more -/
theorem addFormula_strip (settings : Settings) (formulas : List String) (formula : String) :
    ((ofFormulas settings formulas).addFormula formula).strip =
      if contributes settings.dedup (Formula.readAll formulas) formula
      then (ofFormulas settings formulas).strip.addFormula formula else (ofFormulas settings formulas).strip := by
  unfold State.addFormula contributes
  cases hread : Formula.read formula with
  | error e => exact State.strip_note_of_idle _ rfl
  | ok c =>
    have hknows := ofFormulas_knows settings formulas c
    unfold State.addClause
    rw [State.strip_working]
    rcases WorkingSet.insertInitial_cases (ofFormulas settings formulas).working c with ⟨hknown, e⟩ | ⟨hnew, w, e, -⟩
    · simp only [e, hknows.1 hknown, not_true_eq_false, decide_false]
      exact State.strip_note_of_idle _ rfl
    · have hkey : settings.dedup.key c ∉ (Formula.readAll formulas).map settings.dedup.key := by
        rw [← hknows, hnew]
        simp
      simp only [e, hkey, not_false_eq_true, decide_true]
      exact State.strip_note _ rfl

/-- **The formulas that contribute lead to the stripped state.** -/
theorem ofFormulas_contributing (settings : Settings) (formulas : List String) :
    ofFormulas settings (contributing settings.dedup formulas) = (ofFormulas settings formulas).strip := by
  induction formulas using List.reverseRecOn with
  | nil => rfl
  | append_singleton formulas formula ih =>
    rw [ofFormulas_concat, addFormula_strip, contributing_concat]
    split_ifs
    · rw [ofFormulas_concat, ih]
    · rw [List.append_nil, ih]

theorem read_of_contributing {k : Dedup} {formulas : List String} {formula : String}
    (h : formula ∈ contributing k formulas) : ∃ c, Formula.read formula = .ok c := by
  obtain ⟨⟨f, n⟩, hmem, rfl⟩ := List.mem_map.1 h
  have hcontributes := (List.mem_filter.1 hmem).2
  unfold contributes at hcontributes
  cases hread : Formula.read f with
  | error e => simp [hread] at hcontributes
  | ok c => exact ⟨c, rfl⟩

/-- formulas that can all be read are their clauses -/
theorem map_read_of_forall {formulas : List String} (h : ∀ f ∈ formulas, ∃ c, Formula.read f = .ok c) :
    formulas.map Formula.read = (Formula.readAll formulas).map .ok := by
  induction formulas with
  | nil => rfl
  | cons f formulas ih =>
    obtain ⟨c, hc⟩ := h f List.mem_cons_self
    have hall : Formula.readAll (f :: formulas) = c :: Formula.readAll formulas := by
      simp [Formula.readAll, hc, Except.toOption]
    rw [hall, List.map_cons, List.map_cons, hc, ih fun g hg => h g (List.mem_cons_of_mem f hg)]

theorem foldl_addFormula_eq {formulas : List String} {clauses : List Clause}
    (h : formulas.map Formula.read = clauses.map .ok) (s : State) :
    formulas.foldl State.addFormula s = clauses.foldl State.addClause s := by
  induction formulas generalizing clauses s with
  | nil =>
    obtain rfl : clauses = [] := by simpa using h.symm
    rfl
  | cons f formulas ih =>
    cases clauses with
    | nil => simp at h
    | cons c clauses =>
      obtain ⟨hf, hrest⟩ := List.cons.inj h
      rw [List.foldl_cons, List.foldl_cons, ← ih hrest]
      simp only [State.addFormula, hf]

/-! ## Attempts -/

/-- **Rejected and repeated formulas are neutral.** For every list of formulas and all settings, the formulas without those
that are rejected and those whose clause has the key of an earlier one have the same verdict, reason to stop and counters.
Their trace shows the same events but for those of the formulas taken out. All of them can be read, and the attempt on them
is, entry by entry, the attempt on their clauses. -/
theorem idle_input_neutral (settings : Settings) (formulas : List String) :
    let kept := contributing settings.dedup formulas
    let o := (prove settings formulas).outcome
    let o' := (prove settings kept).outcome
    o'.proved = o.proved ∧ o'.termination = o.termination ∧ o'.tally = o.tally ∧
      o'.trace = .ofEvents (o.trace.events.filter (!·.idle)) ∧
      kept.map Formula.read = (Formula.readAll kept).map .ok ∧
      prove settings kept = proveClauses settings (Formula.readAll kept) := by
  intro kept o o'
  have hattempt : prove settings kept = (prove settings formulas).strip := by
    unfold prove
    rw [ofFormulas_contributing, State.run_strip]
  have hread : kept.map Formula.read = (Formula.readAll kept).map .ok :=
    map_read_of_forall fun f hf => read_of_contributing hf
  have houtcome : o' = (prove settings formulas).strip.outcome := congrArg Attempt.outcome hattempt
  rw [houtcome]
  refine ⟨rfl, rfl, rfl, ?_, hread, ?_⟩
  · have hevents : o.trace.events = (prove settings formulas).journal.filterMap Journal.Entry.event? :=
      Trace.events_ofEvents _
    rw [hevents, ← Journal.filterMap_event_strip]
    rfl
  · unfold prove proveClauses
    exact congrArg (State.run · settings) (foldl_addFormula_eq hread (.start settings))

/-- a formula that is no formula, and one whose clause came before with other blanks -/
example : contributing .canonical ["P ∨ Q", "P ∨", "P∨Q", "¬P"] = ["P ∨ Q", "¬P"] := by decide +kernel

end Search

end Refutation
