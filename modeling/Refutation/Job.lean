/-
Proof jobs: a proof attempt that reports when it starts and when it is done.
-/
import Refutation.Search

namespace Refutation.Job

/-- what a job reports about its progress -/
inductive Status where
  | started (formulas : Nat)
  | finished (proved : Bool) (steps : Nat)
deriving DecidableEq, Repr

end Refutation.Job

namespace Refutation

/-- a finished job -/
structure Job where
  statuses : List Job.Status
  outcome : Outcome
  log : List Log.Record

/-- tries to refute the formulas as a job -/
def Job.run (settings : Settings) (formulas : List String) : Job :=
  let attempt := Search.prove settings formulas
  let outcome := attempt.outcome
  { statuses := [.started formulas.length, .finished outcome.proved outcome.tally.steps], outcome,
    log := attempt.log ++ [⟨.debug, "proof job done", [("proved", Log.flag outcome.proved)]⟩] }

end Refutation
