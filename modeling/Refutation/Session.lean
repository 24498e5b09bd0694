/-
Sessions: formulas that are collected and then tried together, the settings for that, and the last outcome. An action gives
a reply or an error, and the session after it.
-/
import Refutation.Json.Outcome
import Refutation.Json.Settings
import Refutation.Search

namespace Refutation

namespace Session

/-- what an action did -/
inductive Reply where
  | formulaAdded (index : Nat) (clause : String)
  | optionSet (key value : String)
  | settingsLoaded (path : String)
  | cleared (removed : Nat)
deriving DecidableEq, Repr

/-- the wording of a reply -/
def Reply.text : Reply → String
  | .formulaAdded index clause => "[" ++ Nat.repr index ++ "] " ++ clause
  | .optionSet key value => key ++ " = " ++ value
  | .settingsLoaded path => "Loaded settings from " ++ path ++ "."
  | .cleared removed => "Removed " ++ Nat.repr removed ++ " formula(s)."

/-- why an action failed -/
inductive Error where
  | parse (formula : String) (error : FormulaError)
  | settings (error : SettingsError)
  | noOutcome
deriving DecidableEq, Repr

/-- the wording of a failure -/
def Error.message : Error → String
  | .parse formula error => "cannot parse '" ++ formula ++ "': " ++ error.message
  | .settings error => error.message
  | .noOutcome => "no proof has been run yet"

end Session

/-- collected formulas, settings, and the outcome of the last attempt -/
structure Session where
  formulas : List String := []
  settings : Settings := {}
  last : Option Outcome := none
deriving DecidableEq, Repr

namespace Session

/-- adds a formula, trimmed; it must denote a clause -/
def add (s : Session) (formula : String) : Except Error Reply × Session :=
  let formula := String.ofList (Text.trim formula.toList)
  match Formula.read formula with
  | .error e => (.error (.parse formula e), s)
  | .ok clause =>
    (.ok (.formulaAdded (s.formulas.length + 1) clause.text), { s with formulas := s.formulas ++ [formula] })

/-- sets one value -/
def setOption (s : Session) (key value : String) : Except Error Reply × Session :=
  match s.settings.set key value with
  | .error e => (.error (.settings e), s)
  | .ok settings => (.ok (.optionSet key value), { s with settings })

/-- replaces the settings by those of a file -/
def load (reader : FileReader) (s : Session) (path : String) : Except Error Reply × Session :=
  match Settings.ofFile reader path with
  | .error e => (.error (.settings e), s)
  | .ok settings => (.ok (.settingsLoaded path), { s with settings })

/-- drops the formulas and the last outcome -/
def clear (s : Session) : Reply × Session :=
  (.cleared s.formulas.length, { s with formulas := [], last := none })

/-- the attempt on the formulas with the settings -/
def attempt (s : Session) : Search.Attempt := Search.prove s.settings s.formulas

/-- tries the formulas and keeps the outcome -/
def prove (s : Session) : Outcome × Session :=
  let outcome := s.attempt.outcome
  (outcome, { s with last := some outcome })

/-- the last outcome as a document -/
def document (s : Session) : Except Error String :=
  match s.last with
  | some outcome => .ok outcome.toJson.pretty
  | none => .error .noOutcome

end Session

end Refutation
