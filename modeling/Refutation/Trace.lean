/-
Traces: the numbered record of a proof attempt, as it is shown and exported. Clauses stand in it as text.
-/
namespace Refutation

namespace Trace

/-- what happened at one step of an attempt -/
inductive Event where
  | clauseAdded (clause : String)
  | duplicateClause (clause : String)
  | parseFailed (formula error : String)
  | noUsableClauses
  | resolution (left right resolvent : String)
  | contradiction
  | supplyExhausted (steps : Nat)
  | stepLimitReached (maxSteps : Nat)
deriving DecidableEq, Repr

/-- the wording of an event -/
def Event.message : Event → String
  | .clauseAdded clause => "Added clause: " ++ clause
  | .duplicateClause clause => "Duplicate clause ignored: " ++ clause
  | .parseFailed formula error => "Failed to parse formula '" ++ formula ++ "': " ++ error
  | .noUsableClauses => "No usable clauses for the proof"
  | .resolution left right resolvent => "Resolution: " ++ left ++ " and " ++ right ++ " -> " ++ resolvent
  | .contradiction => "Contradiction found! Proof complete."
  | .supplyExhausted steps =>
    "Clause supply exhausted after " ++ Nat.repr steps ++ " steps. No contradiction found."
  | .stepLimitReached maxSteps => "Step limit of " ++ Nat.repr maxSteps ++ " reached. No contradiction found."

/-- a numbered event -/
structure Step where
  number : Nat
  event : Event
deriving DecidableEq, Repr

/-- the line that shows a step -/
def Step.line (s : Step) : String := "Step " ++ Nat.repr s.number ++ ": " ++ s.event.message

end Trace

/-- the steps of an attempt, in order -/
structure Trace where
  steps : List Trace.Step := []
deriving DecidableEq, Repr

namespace Trace

/-- how many steps there are -/
def size (t : Trace) : Nat := t.steps.length

/-- adds an event; steps are numbered from 1 -/
def record (t : Trace) (e : Event) : Trace := ⟨t.steps ++ [⟨t.size + 1, e⟩]⟩

/-- the trace of a list of events -/
def ofEvents (es : List Event) : Trace := ⟨(es.zipIdx 1).map fun (e, n) => ⟨n, e⟩⟩

/-- the events in order -/
def events (t : Trace) : List Event := t.steps.map Step.event

/-- the lines that show the trace -/
def lines (t : Trace) : List String := t.steps.map Step.line

/-- the lines, each with a line feed -/
def text (t : Trace) : String := String.join (t.lines.map (· ++ "\n"))

end Trace

end Refutation
