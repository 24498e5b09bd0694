/-
Requests for an explanation as JSON.
-/
import Refutation.Json.Fields
import Refutation.Report

namespace Refutation

/-- a request as a record -/
def ExplanationRequest.toJson (r : ExplanationRequest) : Json :=
  .object [("input_text", .string r.inputText), ("trace", .array (r.trace.map .string)), ("proved", .bool r.proved)]

/-- the request that a value denotes -/
def ExplanationRequest.ofJson? (j : Json) : Option ExplanationRequest :=
  match Json.fields? ["input_text", "trace", "proved"] j with
  | some [some inputText, some trace, some proved] => do
    return ⟨← inputText.string?, ← trace.list? Json.string?, ← proved.bool?⟩
  | _ => none

end Refutation
