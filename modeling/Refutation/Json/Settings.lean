/-
Settings as JSON: a closed record whose absent fields have their default values. A document is read as a whole before the
settings in it are checked.
-/
import Refutation.Json.Fields
import Refutation.Json.Read
import Refutation.Json.Write
import Refutation.Settings

namespace Refutation

/-- the unifier that a value names -/
def Unifier.ofJson? (j : Json) : Option Unifier :=
  match j.choice? with
  | some "single_pass" => some .singlePass
  | some "complete" => some .complete
  | _ => none

/-- the pair selection that a value names -/
def PairSelection.ofJson? (j : Json) : Option PairSelection :=
  match j.choice? with
  | some "first_match" => some .firstMatch
  | some "all" => some .all
  | _ => none

/-- the kind of key that a value names -/
def Dedup.ofJson? (j : Json) : Option Dedup :=
  match j.choice? with
  | some "canonical" => some .canonical
  | some "literal_set" => some .literalSet
  | _ => none

namespace Settings

/-- settings as a record -/
def toJson (s : Settings) : Json :=
  .object [("max_steps", .ofNat s.maxSteps), ("unifier", .string s.unifier.name),
    ("pair_selection", .string s.pairSelection.name), ("dedup", .string s.dedup.name)]

/-- an absent field has its default value -/
def withDefault {α : Type} (default : α) (part? : Json → Option α) : Option Json → Option α
  | none => some default
  | some j => part? j

/-- the settings that a value denotes, not checked -/
def ofJson? (j : Json) : Option Settings :=
  match Json.closedFields? ["max_steps", "unifier", "pair_selection", "dedup"] j with
  | some [maxSteps, unifier, pairSelection, dedup] => do
    return {
      maxSteps := ← withDefault ({} : Settings).maxSteps Json.nat? maxSteps
      unifier := ← withDefault ({} : Settings).unifier Unifier.ofJson? unifier
      pairSelection := ← withDefault ({} : Settings).pairSelection PairSelection.ofJson? pairSelection
      dedup := ← withDefault ({} : Settings).dedup Dedup.ofJson? dedup }
  | _ => none

/-- the valid settings of a document -/
def ofDocument (text : String) : Except SettingsError Settings :=
  match (Json.read text).bind ofJson? with
  | some s => s.validate
  | none => .error .malformed

/-- the valid settings of a file -/
def ofFile (reader : FileReader) (path : String) : Except SettingsError Settings :=
  match reader.text path with
  | .ok text => ofDocument text
  | .error fault => .error (.unreadable path fault)

end Settings

end Refutation
