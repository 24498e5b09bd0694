/-
The outcome of a proof attempt: why it stopped, its trace and its counters. Formulas are proved by refutation, so an
attempt proves its formulas contradictory when it stops with a contradiction.
-/
import Refutation.Trace

namespace Refutation

/-- why an attempt stopped -/
inductive Termination where
  | contradiction
  | noClauses
  | supplyExhausted
  | stepLimit
deriving DecidableEq, Repr

/-- the name in exports -/
def Termination.name : Termination → String
  | .contradiction => "contradiction"
  | .noClauses => "no_clauses"
  | .supplyExhausted => "supply_exhausted"
  | .stepLimit => "step_limit"

/-- the name in the log -/
def Termination.label : Termination → String
  | .contradiction => "Contradiction"
  | .noClauses => "NoClauses"
  | .supplyExhausted => "SupplyExhausted"
  | .stepLimit => "StepLimit"

/-- what an attempt counts: pivots used, clauses in the working set, resolvents built (known ones included) -/
structure Tally where
  steps : Nat := 0
  clausesKept : Nat := 0
  resolventsGenerated : Nat := 0
deriving DecidableEq, Repr

/-- the outcome of an attempt -/
structure Outcome where
  proved : Bool
  termination : Termination
  trace : Trace
  tally : Tally
deriving DecidableEq, Repr

namespace Outcome

/-- the verdict in words -/
def verdict (o : Outcome) : String := if o.proved then "proved" else "not proved"

/-- the trace, then the verdict -/
def text (o : Outcome) : String := o.trace.text ++ "Result: " ++ o.verdict

end Outcome

end Refutation
