/-
Traces and outcomes as JSON.

A step is an object: its number, the kind of its event, and the fields of that kind. To read a step the whole object is
held in memory before its kind is known, so every member must be fit for that; members that the kind does not use are then
skipped. The kind is its name, or its place in the list of kinds.
-/
import Refutation.Json.Fields
import Refutation.Outcome

namespace Refutation

namespace Trace

/-- the kind of an event -/
def Event.kind : Event → String
  | .clauseAdded .. => "clause_added"
  | .duplicateClause .. => "duplicate_clause"
  | .parseFailed .. => "parse_failed"
  | .noUsableClauses => "no_usable_clauses"
  | .resolution .. => "resolution"
  | .contradiction => "contradiction"
  | .supplyExhausted .. => "supply_exhausted"
  | .stepLimitReached .. => "step_limit_reached"

/-- the kinds of events, in order -/
def kinds : List String :=
  ["clause_added", "duplicate_clause", "parse_failed", "no_usable_clauses", "resolution", "contradiction",
    "supply_exhausted", "step_limit_reached"]

/-- the fields of an event -/
def Event.fields : Event → List (String × Json)
  | .clauseAdded clause => [("clause", .string clause)]
  | .duplicateClause clause => [("clause", .string clause)]
  | .parseFailed formula error => [("formula", .string formula), ("error", .string error)]
  | .noUsableClauses => []
  | .resolution left right resolvent =>
    [("left", .string left), ("right", .string right), ("resolvent", .string resolvent)]
  | .contradiction => []
  | .supplyExhausted steps => [("steps", .ofNat steps)]
  | .stepLimitReached maxSteps => [("max_steps", .ofNat maxSteps)]

/-- number, kind, fields -/
def Step.toJson (s : Step) : Json :=
  .object (("number", .ofNat s.number) :: ("kind", .string s.event.kind) :: s.event.fields)

/-- a required field of an event -/
def required? (members : List (String × Json)) (name : String) : Option Json :=
  match Json.field? members name with
  | some found => found
  | none => none

/-- a required field that holds text -/
def requiredString? (members : List (String × Json)) (name : String) : Option String :=
  (required? members name).bind Json.string?

/-- a required field that holds a number -/
def requiredNat? (members : List (String × Json)) (name : String) : Option Nat :=
  (required? members name).bind Json.nat?

/-- the kind that a value names, by name or by place -/
def kindOfJson? : Json → Option String
  | .string s => some s
  | .number (.natural n) => kinds[n]?
  | _ => none

/-- the event of a kind, with its fields among the members -/
def Event.ofMembers? (kind : String) (members : List (String × Json)) : Option Event :=
  match kind with
  | "clause_added" => (requiredString? members "clause").map .clauseAdded
  | "duplicate_clause" => (requiredString? members "clause").map .duplicateClause
  | "parse_failed" => do
    return .parseFailed (← requiredString? members "formula") (← requiredString? members "error")
  | "no_usable_clauses" => some .noUsableClauses
  | "resolution" => do
    return .resolution (← requiredString? members "left") (← requiredString? members "right")
      (← requiredString? members "resolvent")
  | "contradiction" => some .contradiction
  | "supply_exhausted" => (requiredNat? members "steps").map .supplyExhausted
  | "step_limit_reached" => (requiredNat? members "max_steps").map .stepLimitReached
  | _ => none

/-- the step that an object denotes, when its members may be nested `room` levels deep -/
def Step.ofJson? (room : Nat) : Json → Option Step
  | .object members => do
    let number ← requiredNat? members "number"
    let held := members.filter (·.1 != "number")
    guard (held.all fun m => m.2.holdable room)
    let kind ← (required? held "kind").bind kindOfJson?
    let event ← Event.ofMembers? kind (held.filter (·.1 != "kind"))
    return ⟨number, event⟩
  | _ => none

end Trace

/-- the steps in an array -/
def Trace.toJson (t : Trace) : Json := .array (t.steps.map Trace.Step.toJson)

/-- the trace that an array denotes, when members of its steps may be nested `room` levels deep -/
def Trace.ofJson? (room : Nat) (j : Json) : Option Trace := (j.list? (Trace.Step.ofJson? room)).map Trace.mk

/-- the termination that a value names -/
def Termination.ofJson? (j : Json) : Option Termination :=
  match j.choice? with
  | some "contradiction" => some .contradiction
  | some "no_clauses" => some .noClauses
  | some "supply_exhausted" => some .supplyExhausted
  | some "step_limit" => some .stepLimit
  | _ => none

/-- the counters as a record -/
def Tally.toJson (t : Tally) : Json :=
  .object [("steps", .ofNat t.steps), ("clauses_kept", .ofNat t.clausesKept),
    ("resolvents_generated", .ofNat t.resolventsGenerated)]

/-- the counters that a value denotes -/
def Tally.ofJson? (j : Json) : Option Tally :=
  match Json.fields? ["steps", "clauses_kept", "resolvents_generated"] j with
  | some [some steps, some kept, some generated] => do
    return ⟨← steps.nat?, ← kept.nat?, ← generated.nat?⟩
  | _ => none

/-- an outcome as a record -/
def Outcome.toJson (o : Outcome) : Json :=
  .object [("proved", .bool o.proved), ("termination", .string o.termination.name), ("trace", o.trace.toJson),
    ("stats", o.tally.toJson)]

/-- levels of nesting that a document may have -/
def Json.nestingLimit : Nat := 127

/-- the trace that a document denotes: its steps are two levels down -/
def Trace.ofDocument? (j : Json) : Option Trace := Trace.ofJson? (Json.nestingLimit - 2) j

/-- the outcome that a document denotes: the steps of its trace are three levels down -/
def Outcome.ofDocument? (j : Json) : Option Outcome :=
  match Json.fields? ["proved", "termination", "trace", "stats"] j with
  | some [some proved, some termination, some trace, some tally] => do
    return ⟨← proved.bool?, ← Termination.ofJson? termination, ← Trace.ofJson? (Json.nestingLimit - 3) trace,
      ← Tally.ofJson? tally⟩
  | _ => none

end Refutation
