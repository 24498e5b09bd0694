import Refutation.Clause
import Refutation.CommandLine
import Refutation.Console
import Refutation.Files
import Refutation.Formula.Error
import Refutation.Formula.Read
import Refutation.Formula.Shape
import Refutation.Job
import Refutation.Journal
import Refutation.Json.Clause
import Refutation.Json.Explanation
import Refutation.Json.Fields
import Refutation.Json.Outcome
import Refutation.Json.Read
import Refutation.Json.Settings
import Refutation.Json.Number
import Refutation.Json.Value
import Refutation.Json.Write
import Refutation.Literal
import Refutation.Log
import Refutation.Main
import Refutation.Outcome
import Refutation.Queue
import Refutation.Report
import Refutation.Resolvent
import Refutation.Search
import Refutation.Session
import Refutation.Settings
import Refutation.Signature
import Refutation.Substitution
import Refutation.Term
import Refutation.Text.Blank
import Refutation.Text.Cut
import Refutation.Text.Lowercase
import Refutation.Text.Name
import Refutation.Text.Natural
import Refutation.Text.Span
import Refutation.Trace
import Refutation.Unifier
import Refutation.WorkingSet
import Refutation.Proofs.Chains
import Refutation.Proofs.CompleteUnifier
import Refutation.Proofs.Resolvents
import Refutation.Proofs.SinglePass
import Refutation.Proofs.Cycles
import Refutation.Proofs.Truth
import Refutation.Proofs.SearchRuns
import Refutation.Proofs.Derivations
import Refutation.Proofs.Soundness
import Refutation.Proofs.Texts
import Refutation.Proofs.Readable
import Refutation.Proofs.UniqueText
import Refutation.Proofs.Saturation
import Refutation.Proofs.GroundHorn
import Refutation.Proofs.Courses
import Refutation.Proofs.Uses
import Refutation.Proofs.Refusals
import Refutation.Proofs.SearchSpace
import Refutation.Proofs.Renaming
import Refutation.Proofs.CompleteResolution
import Refutation.Proofs.Acceptance
import Refutation.Proofs.ResolventLists
import Refutation.Proofs.WellFormed
import Refutation.Proofs.RenamedSearch
import Refutation.Proofs.VariableNames
import Refutation.Proofs.Traces
import Refutation.Proofs.Budgets
import Refutation.Proofs.Operations
import Refutation.Proofs.Replays
import Refutation.Proofs.Tallies
import Refutation.Proofs.IdleInput
import Refutation.Proofs.Shapes
import Refutation.Proofs.ReadingRuns
import Refutation.Proofs.Rejections
import Refutation.Proofs.Written
import Refutation.Proofs.Reparsing
import Refutation.Proofs.Grammar
import Refutation.Proofs.LiteralSets
import Refutation.Proofs.EmptyMarks
import Refutation.Proofs.EmptyInput
import Refutation.Proofs.SessionRuns
import Refutation.Proofs.SettingsUpdates
import Refutation.Proofs.FrontEnds
import Refutation.Proofs.Explanations
import Refutation.Proofs.Exports
import Refutation.Proofs.SettingsTexts
