/-
The command line.

`prove` tries the formulas among its arguments, `explain` reports on a text from a file or the input, `repl` opens the
console; without a command the console is opened with default settings. Options may stand before and after the other
arguments, as `--name value` or `--name=value`, and `--` ends them. Arguments are read from left to right, and the first
that is refused, or that asks for help or the version, decides.

`run` is the whole program as a function: the exit code and what is written, from the arguments, the files and the input.
-/
import Refutation.Console
import Refutation.Report

namespace Refutation.CommandLine

/-- settings as options give them -/
structure Options where
  config : Option String := none
  maxSteps : Option Nat := none
  unifier : Option Unifier := none
  pairSelection : Option PairSelection := none
  dedup : Option Dedup := none
deriving DecidableEq, Repr

/-- the commands -/
inductive Command where
  | prove
  | explain
  | console
deriving DecidableEq, Repr

/-- what the arguments ask for -/
inductive Request where
  | prove (formulas : List String) (options : Options) (json : Bool)
  | explain (file : Option String) (options : Options)
  | console (options : Options)
deriving DecidableEq, Repr

/-- why reading the arguments stopped -/
inductive Stop where
  | refused
  | help
  | version
deriving DecidableEq, Repr

/-- what was read of the arguments of a command -/
structure Collected where
  options : Options := {}
  json : Bool := false
  verbose : Bool := false
  others : List String := []
deriving DecidableEq, Repr

/-! ## Arguments -/

/-- the argument is no value: it starts with a hyphen and is more than that -/
def isOption (arg : String) : Bool :=
  match arg.toList with
  | '-' :: _ :: _ => true
  | _ => false

/-- the command that a name denotes -/
def Command.ofName? : String → Option Command
  | "prove" => some .prove
  | "explain" => some .explain
  | "repl" => some .console
  | _ => none

/-- the arguments that are no options: any number for `prove`, one file for `explain`, none for the console -/
def Collected.addOther (command : Command) (got : Collected) (arg : String) : Except Stop Collected :=
  match command, got.others with
  | .prove, others => .ok { got with others := others ++ [arg] }
  | .explain, [] => if arg.isEmpty then .error .refused else .ok { got with others := [arg] }
  | _, _ => .error .refused

/-- arguments after the end of the options -/
def Collected.addOthers (command : Command) (got : Collected) : List String → Except Stop Collected
  | [] => .ok got
  | arg :: rest =>
    match got.addOther command arg with
    | .ok got => got.addOthers command rest
    | .error stop => .error stop

/-- the flag `--verbose`, which may be given once -/
def Collected.addVerbose (got : Collected) : Except Stop Collected :=
  if got.verbose then .error .refused else .ok { got with verbose := true }

/-- the flag `--json`, which may be given once -/
def Collected.addJson (got : Collected) : Except Stop Collected :=
  if got.json then .error .refused else .ok { got with json := true }

/-- the names of the options that take a value -/
def valued : List String := ["config", "max-steps", "unifier", "pair-selection", "dedup"]

/-- an option with its value; the option may be given once, and the value must be one that it takes -/
def Options.add (o : Options) (name value : String) : Option Options :=
  match name with
  | "config" => if o.config.isSome || value.isEmpty then none else some { o with config := some value }
  | "max-steps" =>
    match Settings.readMaxSteps value with
    | .ok n => if o.maxSteps.isSome then none else some { o with maxSteps := some n }
    | .error _ => none
  | "unifier" =>
    (Unifier.ofName? value).bind fun u => if o.unifier.isSome then none else some { o with unifier := some u }
  | "pair-selection" =>
    (PairSelection.ofName? value).bind fun p =>
      if o.pairSelection.isSome then none else some { o with pairSelection := some p }
  | "dedup" =>
    (Dedup.ofName? value).bind fun d => if o.dedup.isSome then none else some { o with dedup := some d }
  | _ => none

/-- an option with its value, among the arguments of a command -/
def Collected.addValue (got : Collected) (name value : String) : Except Stop Collected :=
  match got.options.add name value with
  | some options => .ok { got with options }
  | none => .error .refused

/-- a cluster of one-letter flags -/
def Collected.addLetters (atRoot : Bool) (got : Collected) : List Char → Except Stop Collected
  | [] => .ok got
  | 'v' :: rest =>
    match got.addVerbose with
    | .ok got => got.addLetters atRoot rest
    | .error stop => .error stop
  | 'h' :: _ => .error .help
  | 'V' :: _ => .error (if atRoot then .version else .refused)
  | _ :: _ => .error .refused

/-- a long flag, which has no value -/
def Collected.addFlag (command : Command) (got : Collected) : String → Except Stop Collected
  | "verbose" => got.addVerbose
  | "help" => .error .help
  | "json" => if command = .prove then got.addJson else .error .refused
  | _ => .error .refused

/-- name and value of `name=value` -/
def splitValue? (cs : List Char) : Option (String × String) :=
  (Text.beforeFirst '=' cs).map fun name => (String.ofList name, String.ofList (cs.drop (name.length + 1)))

/-- the arguments after a command -/
def collect (command : Command) (got : Collected) : List String → Except Stop Collected
  | [] => .ok got
  | arg :: rest =>
    match arg.toList with
    | ['-', '-'] => got.addOthers command rest
    | '-' :: '-' :: cs =>
      match splitValue? cs with
      | some (name, value) =>
        match got.addValue name value with
        | .ok got => collect command got rest
        | .error stop => .error stop
      | none =>
        if valued.contains (String.ofList cs) then
          match rest with
          | [] => .error .refused
          | value :: rest =>
            if isOption value then .error .refused
            else
              match got.addValue (String.ofList cs) value with
              | .ok got => collect command got rest
              | .error stop => .error stop
        else
          match got.addFlag command (String.ofList cs) with
          | .ok got => collect command got rest
          | .error stop => .error stop
    | '-' :: c :: cs =>
      match got.addLetters false (c :: cs) with
      | .ok got => collect command got rest
      | .error stop => .error stop
    | _ =>
      match got.addOther command arg with
      | .ok got => collect command got rest
      | .error stop => .error stop

/-- what the arguments of a command ask for; `prove` needs a formula -/
def request (command : Command) (got : Collected) : Except Stop Request :=
  match command, got.others with
  | .prove, [] => .error .refused
  | .prove, formulas => .ok (.prove formulas got.options got.json)
  | .explain, others => .ok (.explain others.head? got.options)
  | .console, _ => .ok (.console got.options)

/-- the request for help on a command -/
def helpOn : List String → Stop
  | [] => .help
  | [name] => if (Command.ofName? name).isSome || name == "help" then .help else .refused
  | _ => .refused

/-- what the arguments ask for, and whether the log is to be verbose -/
def read (got : Collected) : List String → Except Stop (Request × Bool)
  | [] => .ok (.console {}, got.verbose)
  | arg :: rest =>
    match arg.toList with
    | ['-', '-'] => if rest.isEmpty then .ok (.console {}, got.verbose) else .error .refused
    | '-' :: '-' :: cs =>
      match String.ofList cs with
      | "version" => .error .version
      | "help" => .error .help
      | "verbose" =>
        match got.addVerbose with
        | .ok got => read got rest
        | .error stop => .error stop
      | _ => .error .refused
    | '-' :: c :: cs =>
      match got.addLetters true (c :: cs) with
      | .ok got => read got rest
      | .error stop => .error stop
    | _ =>
      match Command.ofName? arg with
      | some command =>
        match collect command {} rest with
        | .ok found => (request command found).map fun r => (r, got.verbose || found.verbose)
        | .error stop => .error stop
      | none => .error (if arg == "help" then helpOn rest else .refused)

/-! ## Execution -/

/-- what a run leaves behind: the exit code, what is written, and the log -/
structure Result where
  exit : Nat
  out : String := ""
  err : String := ""
  log : List Log.Record := []
deriving DecidableEq, Repr

/-- the program's name and version -/
def versionText : String := "resolute 0.1.0"

/-- what the console starts with -/
def banner : String := "Resolute - resolution prover\nType :help for help, :quit to exit.\n\n"

/-- how the program is used -/
def usage : String :=
  String.intercalate "\n"
    ["Resolution prover for a small first-order fragment",
      "",
      "Usage: resolute [-v] prove <FORMULA>... [OPTIONS] [--json]",
      "       resolute [-v] explain [FILE] [OPTIONS]",
      "       resolute [-v] repl [OPTIONS]",
      "",
      "Options:",
      "  --config <FILE>          JSON configuration file",
      "  --max-steps <N>          maximum number of resolution steps",
      "  --unifier <MODE>         single_pass or complete",
      "  --pair-selection <MODE>  first_match or all",
      "  --dedup <MODE>           canonical or literal_set",
      "  -v, --verbose            log everything",
      "  -h, --help               print this text",
      "  -V, --version            print the version"]

/-- exit code of an attempt: 0 if it proved its formulas contradictory -/
def verdictCode (proved : Bool) : Nat := if proved then 0 else 1

/-- the result of a failure -/
def failure (message : String) : Result := { exit := 2, err := "Error: " ++ message ++ "\n" }

/-- The settings that options ask for. Those of the file must be valid by themselves, and so must those that the other
options turn them into. -/
def Options.settings (reader : FileReader) (o : Options) : Except SettingsError Settings :=
  let base : Except SettingsError Settings :=
    match o.config with
    | some path => Settings.ofFile reader path
    | none => .ok {}
  match base with
  | .error e => .error e
  | .ok s =>
    Settings.validate
      { maxSteps := o.maxSteps.getD s.maxSteps, unifier := o.unifier.getD s.unifier,
        pairSelection := o.pairSelection.getD s.pairSelection, dedup := o.dedup.getD s.dedup }

/-- tries formulas and shows the outcome, as text or as a document -/
def runProve (settings : Settings) (formulas : List String) (json : Bool) : Result :=
  let attempt := Search.prove settings formulas
  let outcome := attempt.outcome
  { exit := verdictCode outcome.proved, out := (if json then outcome.toJson.pretty else outcome.text) ++ "\n",
    log := attempt.log }

/-- reports on a text -/
def runExplain (settings : Settings) (text : String) : Result :=
  match Report.make Report.plain settings text with
  | (.error e, log) => { failure e.message with log }
  | (.ok report, log) =>
    { exit := verdictCode report.outcome.proved, out := report.outcome.text ++ "\n\n" ++ report.explanation ++ "\n",
      log }

/-- the lines of an input, each a text of its own -/
def inputLines (input : ByteArray) : List (Except FileError String) :=
  (Text.linesAt 10 13 input.toList).map fun line => decodeText ⟨line.toArray⟩

/-- runs the console over an input -/
def runConsole (reader : FileReader) (settings : Settings) (input : ByteArray) : Result :=
  let console : Console := { session := { settings } }
  let t := console.converse reader {} (inputLines input)
  match t.fault with
  | none => { exit := 0, out := banner ++ t.out, err := t.err }
  | some e => { exit := 2, out := banner ++ t.out, err := t.err ++ "Error: " ++ e.message ++ "\n" }

/-- carries a request out; for a report the text is read before the settings -/
def execute (reader : FileReader) (input : ByteArray) : Request → Result
  | .prove formulas options json =>
    match options.settings reader with
    | .ok settings => runProve settings formulas json
    | .error e => failure e.message
  | .explain file options =>
    let text := match file with
      | some path => reader.text path
      | none => decodeText input
    match text with
    | .error fault => failure fault.message
    | .ok text =>
      match options.settings reader with
      | .ok settings => runExplain settings text
      | .error e => failure e.message
  | .console options =>
    match options.settings reader with
    | .ok settings => runConsole reader settings input
    | .error e => failure e.message

/-- what is written when the arguments ask for no work -/
def stopResult : Stop → Result
  | .refused => { exit := 2, err := "error: the arguments are not understood\n\n" ++ usage ++ "\n" }
  | .help => { exit := 0, out := usage ++ "\n" }
  | .version => { exit := 0, out := versionText ++ "\n" }

/-- the program: arguments, files and input to what it leaves behind -/
def run (reader : FileReader) (input : ByteArray) (args : List String) : Result :=
  match read {} args with
  | .ok (request, _) => execute reader input request
  | .error stop => stopResult stop

end Refutation.CommandLine
