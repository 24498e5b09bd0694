/-
The search for the empty clause.

One turn takes the next pivot from the working set and resolves it with its partners. A resolvent that is not known yet
joins the working set; the empty clause ends the search. `saturate` makes turns until the empty clause is derived, no
clause waits, or the budget is used up. Inferences after the empty clause are never made; `turn_of_get?` says that a turn
takes in the list of all its inferences all the same. `prove` and `proveClauses` run a search on formulas and on clauses.
-/
import Refutation.Journal
import Refutation.Settings
import Refutation.Signature

namespace Refutation.Search

/-- the state of a search -/
structure State where
  working : WorkingSet
  steps : Nat := 0
  generated : Nat := 0
  journal : Array Journal.Entry := #[]

/-- a resolvent with the two clauses that it comes from -/
structure Inference where
  left : Clause
  right : Clause
  resolvent : Clause
deriving DecidableEq, Repr

/-- a finished search -/
structure Attempt where
  journal : List Journal.Entry
  termination : Termination
  tally : Tally

namespace Attempt

/-- the outcome that an attempt shows -/
def outcome (a : Attempt) : Outcome :=
  { proved := a.termination == .contradiction, termination := a.termination, trace := Journal.trace a.journal,
    tally := a.tally }

/-- what an attempt reports -/
def log (a : Attempt) : List Log.Record := Journal.log a.journal

end Attempt

namespace State

/-- the state before any input -/
def start (settings : Settings) : State := { working := .empty settings.dedup }

/-- writes an entry in the journal -/
def note (s : State) (e : Journal.Entry) : State := { s with journal := s.journal.push e }

/-- adds an input clause -/
def addClause (s : State) (c : Clause) : State :=
  match s.working.insertInitial c with
  | (some _, w) => { s with working := w }.note (.added c)
  | (none, _) => s.note (.repeated c)

/-- adds the clause of a formula; a text that is no formula is noted and skipped -/
def addFormula (s : State) (formula : String) : State :=
  match Formula.read formula with
  | .ok c => s.addClause c
  | .error e => s.note (.rejected formula e)

/-- the inferences of a pivot with the clause of index `j` -/
def inferencesWith (settings : Settings) (w : WorkingSet) (pivot : Clause) (j : Nat) : List Inference :=
  match w.get? j with
  | none => []
  | some partner =>
    (settings.pairSelection.resolvents settings.unifier pivot partner).map fun r => ⟨pivot, partner, r.clause⟩

/-- the indices that the pivot of index `i` is resolved with -/
def otherPartners (w : WorkingSet) (i : Nat) (pivot : Clause) : List Nat := (w.partners pivot).filter (· != i)

/-- the inferences of a pivot, partner by partner -/
def inferences (settings : Settings) (w : WorkingSet) (i : Nat) (pivot : Clause) : List Inference :=
  (otherPartners w i pivot).flatMap (inferencesWith settings w pivot)

/-- takes in inferences until the empty clause is among them; says whether it was -/
def absorb : List Inference → State → State × Bool
  | [], s => (s, false)
  | i :: rest, s =>
    let s := { s with generated := s.generated + 1 }
    if i.resolvent.isEmpty then (s.note (.resolved i.left i.right i.resolvent), true)
    else
      match s.working.insertDerived i.resolvent with
      | (some _, w) => absorb rest ({ s with working := w }.note (.resolved i.left i.right i.resolvent))
      | (none, _) => absorb rest s

theorem absorb_append (xs ys : List Inference) (s : State) :
    absorb (xs ++ ys) s = if (absorb xs s).2 then absorb xs s else absorb ys (absorb xs s).1 := by
  induction xs generalizing s with
  | nil => simp [absorb]
  | cons i rest ih =>
    simp only [List.cons_append, absorb]
    split
    · simp
    · split <;> exact ih _

/-- takes in the inferences with one partner after the other; those after the empty clause are not made -/
def absorbPartners (settings : Settings) (w : WorkingSet) (pivot : Clause) : List Nat → State → State × Bool
  | [], s => (s, false)
  | j :: rest, s =>
    match absorb (inferencesWith settings w pivot j) s with
    | (s, true) => (s, true)
    | (s, false) => absorbPartners settings w pivot rest s

theorem absorbPartners_eq (settings : Settings) (w : WorkingSet) (pivot : Clause) (js : List Nat) (s : State) :
    absorbPartners settings w pivot js s = absorb (js.flatMap (inferencesWith settings w pivot)) s := by
  induction js generalizing s with
  | nil => rfl
  | cons j rest ih =>
    rw [List.flatMap_cons, absorb_append, absorbPartners]
    split
    · rename_i heq
      simp [heq]
    · rename_i heq
      simp [heq, ih]

/-- one turn with the pivot of index `i`, which was taken from the queues of `w` -/
def turn (settings : Settings) (s : State) (i : Nat) (w : WorkingSet) : State × Bool :=
  let s := { s with working := w, steps := s.steps + 1 }
  match w.get? i with
  | none => (s, false)
  | some pivot => absorbPartners settings w pivot (otherPartners w i pivot) (s.note (.pivot s.steps pivot))

theorem turn_of_get? {settings : Settings} {s : State} {i : Nat} {w : WorkingSet} {pivot : Clause}
    (h : w.get? i = some pivot) :
    turn settings s i w = absorb (inferences settings w i pivot)
      ({ s with working := w, steps := s.steps + 1 }.note (.pivot (s.steps + 1) pivot)) := by
  simp only [turn, h, inferences, absorbPartners_eq]

/-- makes at most `budget` turns -/
def saturate (settings : Settings) : Nat → State → State × Termination
  | 0, s => (s, if s.working.hasPending then .stepLimit else .supplyExhausted)
  | budget + 1, s =>
    match s.working.nextPivot with
    | (none, _) => (s, .supplyExhausted)
    | (some i, w) =>
      match turn settings s i w with
      | (s, true) => (s, .contradiction)
      | (s, false) => saturate settings budget s

/-- the last entry of the trace -/
def closing (s : State) (settings : Settings) : Termination → Journal.Entry
  | .contradiction => .contradiction
  | .noClauses => .noClauses
  | .supplyExhausted => .supplyExhausted s.steps
  | .stepLimit => .stepLimitReached settings.maxSteps

/-- ends a search -/
def conclude (s : State) (settings : Settings) (t : Termination) : Attempt :=
  let s := (s.note (s.closing settings t)).note (.finished t s.steps s.working.size)
  { journal := s.journal.toList, termination := t,
    tally := { steps := s.steps, clausesKept := s.working.size, resolventsGenerated := s.generated } }

/-- notes the predicates that are used with several arities -/
def noteConflicts (s : State) : State :=
  (Signature.ofClauses s.working.clauses.toList).conflicts.foldl
    (fun s (predicate, arities) => s.note (.mixedArities predicate arities)) s

/-- searches from the input clauses; the empty clause among them is a contradiction without a turn -/
def search (s : State) (settings : Settings) : State × Termination :=
  if s.working.isEmpty then (s, .noClauses)
  else if s.working.clauses.any Clause.isEmpty then (s.noteConflicts, .contradiction)
  else saturate settings settings.maxSteps s.noteConflicts

/-- a whole attempt from the input clauses -/
def run (s : State) (settings : Settings) : Attempt :=
  let (s, t) := s.search settings
  s.conclude settings t

end State

/-- the state after the formulas are read -/
def ofFormulas (settings : Settings) (formulas : List String) : State :=
  formulas.foldl State.addFormula (.start settings)

/-- the state after the clauses are added -/
def ofClauses (settings : Settings) (clauses : List Clause) : State :=
  clauses.foldl State.addClause (.start settings)

/-- tries to refute the conjunction of the formulas -/
def prove (settings : Settings) (formulas : List String) : Attempt := (ofFormulas settings formulas).run settings

/-- tries to refute the conjunction of the clauses -/
def proveClauses (settings : Settings) (clauses : List Clause) : Attempt := (ofClauses settings clauses).run settings

end Refutation.Search
