/-
Reports: a text is formalised into formulas, the formulas are tried, and the outcome is explained.

The first and the last stage are open: a stage may be replaced by one that can fail. The plain stages read one formula a
line, with `;` between formulas on one line and `#` at the start of a comment line, and explain an outcome by its verdict
and its resolution steps.
-/
import Refutation.Job
import Refutation.Text.Blank
import Refutation.Text.Cut

namespace Refutation

/-- what an explanation is made from -/
structure ExplanationRequest where
  inputText : String
  trace : List String
  proved : Bool
deriving DecidableEq, Repr

/-- why there is no report -/
inductive ReportError where
  | formalize (reason : String)
  | explain (reason : String)
deriving DecidableEq, Repr

/-- the wording of a failure -/
def ReportError.message : ReportError → String
  | .formalize reason => "formalization failed: " ++ reason
  | .explain reason => "explanation failed: " ++ reason

/-- the formulas, their outcome and its explanation -/
structure Report where
  formulas : List String
  outcome : Outcome
  explanation : String
deriving DecidableEq, Repr

namespace Report

/-- the formulas of a text -/
def formalize (text : String) : List String :=
  let entries := ((Text.lines text.toList).map Text.trim).filter (·.head? != some '#')
  (((entries.flatMap (·.splitOn ';')).map Text.trim).filter (!·.isEmpty)).map String.ofList

/-- what stands before the resolution step on a line of a trace -/
def resolutionMark : String := ": Resolution: "

/-- the resolution step on a line of a trace -/
def resolutionOf? (line : String) : Option String :=
  (Text.afterPhrase resolutionMark.toList line.toList).map String.ofList

/-- the sentence for a verdict -/
def verdictSentence (proved : Bool) : String :=
  if proved then "The premises together with the negated goal are contradictory, so the goal follows."
  else "No contradiction was found; the goal does not follow within the search budget."

/-- the verdict, then the numbered resolution steps if there are any -/
def explain (request : ExplanationRequest) : String :=
  let steps := request.trace.filterMap resolutionOf?
  let lines := (steps.zipIdx 1).map fun (step, n) => "\n  " ++ Nat.repr n ++ ". " ++ step
  verdictSentence request.proved ++ if steps.isEmpty then "" else "\nDerivation:" ++ String.join lines

/-- the stages before and after the search; each gives its result or a reason why there is none -/
structure Stages where
  formalize : String → Except String (List String)
  explain : ExplanationRequest → Except String String

/-- the plain stages, which do not fail -/
def plain : Stages where
  formalize text := .ok (Report.formalize text)
  explain request := .ok (Report.explain request)

/-- the report on a text, and what was logged on the way -/
def make (stages : Stages) (settings : Settings) (text : String) : Except ReportError Report × List Log.Record :=
  match stages.formalize text with
  | .error reason => (.error (.formalize reason), [])
  | .ok formulas =>
    let job := Job.run settings formulas
    let outcome := job.outcome
    let log := ⟨.info, "formalized input", [("formulas", Nat.repr formulas.length)]⟩ :: job.log ++
      [⟨.info, "proof finished", [("proved", Log.flag outcome.proved)]⟩]
    match stages.explain ⟨text, outcome.trace.lines, outcome.proved⟩ with
    | .error reason => (.error (.explain reason), log)
    | .ok explanation => (.ok ⟨formulas, outcome, explanation⟩, log)

end Report

end Refutation
