/-
The console: a session that is driven line by line.

A line is blank, a formula, or a command after a colon. `Command.ofLine` reads a line; `Console.exec` carries a command
out and gives the text to show or an error. `Console.converse` runs a console over the lines of an input, with a prompt
before each.
-/
import Refutation.Session

namespace Refutation

namespace Console

/-- what a line asks for -/
inductive Command where
  | blank
  | formula (text : String)
  | prove
  | set (key value : String)
  | load (path : String)
  | list
  | settings
  | document
  | clear
  | help
  | quit
  | misused (usage : String)
  | unknown (name : String)
deriving DecidableEq, Repr

/-- the usage of a command without arguments -/
def noArguments : String := "this command takes no arguments"

/-- the command with a name and arguments -/
def Command.ofWords : String → List String → Command
  | "prove", [] => .prove
  | "set", [key, value] => .set key value
  | "set", _ => .misused ":set <key> <value>"
  | "load", [path] => .load path
  | "load", _ => .misused ":load <file>"
  | "show", [] => .list
  | "config", [] => .settings
  | "json", [] => .document
  | "clear", [] => .clear
  | "help", _ => .help
  | "quit", _ => .quit
  | "q", _ => .quit
  | "exit", _ => .quit
  | "prove", _ => .misused noArguments
  | "show", _ => .misused noArguments
  | "config", _ => .misused noArguments
  | "json", _ => .misused noArguments
  | "clear", _ => .misused noArguments
  | name, _ => .unknown name

/-- what a line asks for -/
def Command.ofLine (line : String) : Command :=
  match Text.trim line.toList with
  | [] => .blank
  | ':' :: rest =>
    match (Text.words rest).map String.ofList with
    | [] => .ofWords "" []
    | name :: args => .ofWords name args
  | text => .formula (String.ofList text)

/-- why a line failed -/
inductive Error where
  | session (error : Session.Error)
  | unknownCommand (name : String)
  | usage (text : String)
  | input (fault : FileError)
deriving DecidableEq, Repr

/-- the wording of a failure -/
def Error.message : Error → String
  | .session error => error.message
  | .unknownCommand name => "unknown command ':" ++ name ++ "' (try :help)"
  | .usage text => "usage: " ++ text
  | .input fault => "i/o error: " ++ fault.message

/-- the help text -/
def helpText : String :=
  String.intercalate "\n"
    ["Enter a formula to add it, e.g. ∀x (Human(x) → Mortal(x)).",
      "Commands:",
      "  :prove            prove the accumulated formulas",
      "  :set <key> <val>  change a setting (max_steps, unifier, pair_selection, dedup)",
      "  :show             list the formulas",
      "  :config           show the settings",
      "  :load <file>      replace the settings from a JSON file",
      "  :json             print the last outcome as JSON",
      "  :clear            drop all formulas",
      "  :help             show this help",
      "  :quit             exit"]

/-- the numbered formulas, one a line -/
def listing (formulas : List String) : String :=
  if formulas.isEmpty then "No formulas."
  else String.intercalate "\n" ((formulas.zipIdx 1).map fun (f, n) => "[" ++ Nat.repr n ++ "] " ++ f)

/-- the settings, one a line -/
def settingsText (s : Settings) : String :=
  String.intercalate "\n" (s.entries.map fun (key, value) => key ++ " = " ++ value)

end Console

/-- a session, and whether the console was left -/
structure Console where
  session : Session := {}
  finished : Bool := false
deriving DecidableEq, Repr

namespace Console

/-- the console after an action of its session -/
def reply (c : Console) : Except Session.Error Session.Reply × Session → Except Error String × Console
  | (.ok r, s) => (.ok r.text, { c with session := s })
  | (.error e, s) => (.error (.session e), { c with session := s })

/-- carries a command out -/
def exec (reader : FileReader) (c : Console) : Command → Except Error String × Console
  | .blank => (.ok "", c)
  | .formula text => c.reply (c.session.add text)
  | .prove =>
    let (outcome, s) := c.session.prove
    (.ok outcome.text, { c with session := s })
  | .set key value => c.reply (c.session.setOption key value)
  | .load path => c.reply (c.session.load reader path)
  | .list => (.ok (listing c.session.formulas), c)
  | .settings => (.ok (settingsText c.session.settings), c)
  | .document => ((c.session.document).mapError .session, c)
  | .clear =>
    let (r, s) := c.session.clear
    (.ok r.text, { c with session := s })
  | .help => (.ok helpText, c)
  | .quit => (.ok "", { c with finished := true })
  | .misused usage => (.error (.usage usage), c)
  | .unknown name => (.error (.unknownCommand name), c)

/-- carries a line out -/
def line (reader : FileReader) (c : Console) (text : String) : Except Error String × Console :=
  c.exec reader (Command.ofLine text)

/-- what is written before a line is read -/
def prompt : String := "> "

/-- what a conversation wrote, and the fault of the input that ended it, if one did -/
structure Transcript where
  out : String := ""
  err : String := ""
  fault : Option Error := none
deriving DecidableEq, Repr

/-- what a line adds to a transcript -/
def Transcript.write (t : Transcript) : Except Error String → Transcript
  | .ok text => if text.isEmpty then t else { t with out := t.out ++ text ++ "\n" }
  | .error e => { t with err := t.err ++ "Error: " ++ e.message ++ "\n" }

/-- runs a console over lines until it is left, a line is no text, or there are no more lines -/
def converse (reader : FileReader) (c : Console) (t : Transcript) : List (Except FileError String) → Transcript
  | [] => if c.finished then t else { t with out := t.out ++ prompt }
  | next :: rest =>
    if c.finished then t
    else
      let t := { t with out := t.out ++ prompt }
      match next with
      | .error fault => { t with fault := some (.input fault) }
      | .ok text =>
        let (answer, c) := c.line reader text
        c.converse reader (t.write answer) rest

end Console

end Refutation
