/-
The journal of a search: all that happened, in order, with clauses as clauses. It has two readings. `Entry.event?` gives
the trace, the part that an outcome shows; `Entry.record?` gives the log.
-/
import Refutation.Formula.Read
import Refutation.Log
import Refutation.Outcome

namespace Refutation.Journal

/-- one thing that happened -/
inductive Entry where
  | rejected (formula : String) (error : FormulaError)
  | added (clause : Clause)
  | repeated (clause : Clause)
  | mixedArities (predicate : String) (arities : List Nat)
  | pivot (step : Nat) (clause : Clause)
  | resolved (left right resolvent : Clause)
  | noClauses
  | contradiction
  | supplyExhausted (steps : Nat)
  | stepLimitReached (maxSteps : Nat)
  | finished (termination : Termination) (steps clauses : Nat)
deriving DecidableEq, Repr

namespace Entry

/-- the trace event of an entry -/
def event? : Entry → Option Trace.Event
  | .rejected formula error => some (.parseFailed formula error.message)
  | .added clause => some (.clauseAdded clause.text)
  | .repeated clause => some (.duplicateClause clause.text)
  | .resolved left right resolvent => some (.resolution left.text right.text resolvent.text)
  | .noClauses => some .noUsableClauses
  | .contradiction => some .contradiction
  | .supplyExhausted steps => some (.supplyExhausted steps)
  | .stepLimitReached maxSteps => some (.stepLimitReached maxSteps)
  | .mixedArities .. | .pivot .. | .finished .. => none

/-- the log record of an entry; the empty clause is not reported as a new clause -/
def record? : Entry → Option Log.Record
  | .rejected formula error => some ⟨.warn, "skipping formula", [("formula", formula), ("error", error.message)]⟩
  | .repeated clause => some ⟨.debug, "duplicate input clause", [("clause", clause.text)]⟩
  | .mixedArities predicate arities =>
    some ⟨.warn, "predicate used with several arities",
      [("predicate", predicate), ("arities", Log.numbers arities)]⟩
  | .pivot step clause => some ⟨.debug, "selected pivot", [("step", Nat.repr step), ("pivot", clause.text)]⟩
  | .resolved _ _ resolvent =>
    if resolvent.isEmpty then none else some ⟨.debug, "new clause", [("resolvent", resolvent.text)]⟩
  | .finished termination steps clauses =>
    some ⟨.info, "proof attempt finished",
      [("proved", Log.flag (termination == .contradiction)), ("termination", termination.label),
        ("steps", Nat.repr steps), ("clauses", Nat.repr clauses)]⟩
  | .added .. | .noClauses | .contradiction | .supplyExhausted .. | .stepLimitReached .. => none

end Entry

/-- the trace of a journal -/
def trace (entries : List Entry) : Trace := Trace.ofEvents (entries.filterMap Entry.event?)

/-- the log of a journal -/
def log (entries : List Entry) : List Log.Record := entries.filterMap Entry.record?

end Refutation.Journal
