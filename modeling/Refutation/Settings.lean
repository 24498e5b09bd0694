/-
Settings of a search: the step budget, the unifier, how many resolvents a pair of clauses contributes, and what makes two
clauses the same. Each is set by its key and the text of its value. Setting a value is all or nothing: the new settings
are checked before they replace the old ones.
-/
import Refutation.Files
import Refutation.Resolvent
import Refutation.Text.Natural
import Refutation.WorkingSet

namespace Refutation

/-- the settings of a search -/
structure Settings where
  maxSteps : Nat := 50
  unifier : Unifier := .singlePass
  pairSelection : PairSelection := .firstMatch
  dedup : Dedup := .canonical
deriving DecidableEq, Repr

/-- why a value is refused -/
inductive ValueFault where
  | notNatural (fault : Text.NaturalError)
  | unknownUnifier (name : String)
  | unknownPairSelection (name : String)
  | unknownDedup (name : String)
  | zeroBudget
deriving DecidableEq, Repr

/-- the wording of a fault -/
def ValueFault.message : ValueFault → String
  | .notNatural fault => fault.message
  | .unknownUnifier name => "unknown unifier mode '" ++ name ++ "'"
  | .unknownPairSelection name => "unknown pair selection '" ++ name ++ "'"
  | .unknownDedup name => "unknown dedup mode '" ++ name ++ "'"
  | .zeroBudget => "the step budget must be positive"

/-- why settings cannot be made -/
inductive SettingsError where
  | unknownKey (key : String)
  | invalidValue (key value : String) (fault : ValueFault)
  | unreadable (path : String) (fault : FileError)
  | malformed
deriving DecidableEq, Repr

/-- the wording of a failure -/
def SettingsError.message : SettingsError → String
  | .unknownKey key => "unknown setting '" ++ key ++ "'"
  | .invalidValue key value fault => "invalid value '" ++ value ++ "' for " ++ key ++ ": " ++ fault.message
  | .unreadable path fault => "cannot read config file " ++ path ++ ": " ++ fault.message
  | .malformed => "malformed config: the text is not a settings document"

namespace Settings

/-- the unifier that a value names -/
def readUnifier (value : String) : Except ValueFault Unifier :=
  match Unifier.ofName? value with
  | some u => .ok u
  | none => .error (.unknownUnifier value)

/-- the pair selection that a value names -/
def readPairSelection (value : String) : Except ValueFault PairSelection :=
  match PairSelection.ofName? value with
  | some p => .ok p
  | none => .error (.unknownPairSelection value)

/-- the kind of key that a value names -/
def readDedup (value : String) : Except ValueFault Dedup :=
  match Dedup.ofName? value with
  | some d => .ok d
  | none => .error (.unknownDedup value)

/-- the number that a value denotes -/
def readMaxSteps (value : String) : Except ValueFault Nat :=
  (Text.readNatural value.toList).mapError .notNatural

/-- settings are valid when the step budget is positive -/
def validate (s : Settings) : Except SettingsError Settings :=
  if s.maxSteps = 0 then .error (.invalidValue "max_steps" "0" .zeroBudget) else .ok s

/-- the settings with one value replaced, not checked as a whole -/
def update (s : Settings) (key value : String) : Except SettingsError Settings :=
  let refuse := fun (fault : ValueFault) => SettingsError.invalidValue key value fault
  match key with
  | "max_steps" => ((readMaxSteps value).map fun n => { s with maxSteps := n }).mapError refuse
  | "unifier" => ((readUnifier value).map fun u => { s with unifier := u }).mapError refuse
  | "pair_selection" => ((readPairSelection value).map fun p => { s with pairSelection := p }).mapError refuse
  | "dedup" => ((readDedup value).map fun d => { s with dedup := d }).mapError refuse
  | _ => .error (.unknownKey key)

/-- the valid settings with one value replaced -/
def set (s : Settings) (key value : String) : Except SettingsError Settings :=
  match s.update key value with
  | .ok t => t.validate
  | .error e => .error e

/-- sets values in order; the first failure counts -/
def setAll (s : Settings) : List (String × String) → Except SettingsError Settings
  | [] => .ok s
  | (key, value) :: rest =>
    match s.set key value with
    | .ok t => t.setAll rest
    | .error e => .error e

/-- keys and values as text, in order -/
def entries (s : Settings) : List (String × String) :=
  [("max_steps", Nat.repr s.maxSteps), ("unifier", s.unifier.name), ("pair_selection", s.pairSelection.name),
    ("dedup", s.dedup.name)]

end Settings

end Refutation
