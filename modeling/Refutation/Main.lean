/-
The program: reads the arguments, fetches the files that they name, and writes what `CommandLine` answers. The console is
run line by line, so that an answer appears before the next line is read.
-/
import Refutation.CommandLine

namespace Refutation.Program

/-- the bytes of a file on disk -/
def fetch (path : String) : IO (Except FileError ByteArray) := do
  try
    return .ok (← IO.FS.readBinFile path)
  catch
    | .noFileOrDirectory .. => return .error .notFound
    | e => return .error (.other (toString e))

/-- a reader that knows some files -/
def readerOf (found : List (String × Except FileError ByteArray)) : FileReader :=
  fun path => (found.lookup path).getD (.error .notFound)

/-- a reader for the files with these paths -/
def fetchAll (paths : List String) : IO FileReader := do
  return readerOf (← paths.mapM fun path => return (path, ← fetch path))

/-- the files that a request names -/
def paths : CommandLine.Request → List String
  | .prove _ options _ => options.config.toList
  | .explain file options => file.toList ++ options.config.toList
  | .console options => options.config.toList

/-- the files that a console command names -/
def commandPaths : Console.Command → List String
  | .load path => [path]
  | _ => []

/-- all bytes of a stream -/
partial def readAll (stream : IO.FS.Stream) (got : ByteArray) : IO ByteArray := do
  let chunk ← stream.read 65536
  if chunk.isEmpty then return got else readAll stream (got ++ chunk)

/-- runs the console on standard input and output -/
partial def converse (console : Console) : IO UInt32 := do
  if console.finished then return 0
  let stdout ← IO.getStdout
  stdout.putStr Console.prompt
  stdout.flush
  let line ← (← IO.getStdin).getLine
  if line.isEmpty then return 0
  let command := Console.Command.ofLine line
  let (answer, console) := console.exec (← fetchAll (commandPaths command)) command
  let written := ({} : Console.Transcript).write answer
  stdout.putStr written.out
  IO.eprint written.err
  converse console

/-- writes the records of a log that matter: warnings, or all of them -/
def writeLog (verbose : Bool) (log : List Log.Record) : IO Unit :=
  for record in log do
    if verbose || record.level == .warn then IO.eprintln record.line

/-- writes a result -/
def finish (verbose : Bool) (result : CommandLine.Result) : IO UInt32 := do
  writeLog verbose result.log
  IO.print result.out
  IO.eprint result.err
  return result.exit.toUInt32

/-- carries a request out on the files on disk -/
def serve (verbose : Bool) (request : CommandLine.Request) : IO UInt32 := do
  let reader ← fetchAll (paths request)
  match request with
  | .console options =>
    match options.settings reader with
    | .ok settings =>
      IO.print CommandLine.banner
      converse { session := { settings } }
    | .error e => finish verbose (CommandLine.failure e.message)
  | .explain none _ =>
    let input ← readAll (← IO.getStdin) .empty
    finish verbose (CommandLine.execute reader input request)
  | _ => finish verbose (CommandLine.execute reader .empty request)

end Refutation.Program

/-- the program's entry -/
def main (args : List String) : IO UInt32 :=
  match Refutation.CommandLine.read {} args with
  | .ok (request, verbose) => Refutation.Program.serve verbose request
  | .error stop => Refutation.Program.finish false (Refutation.CommandLine.stopResult stop)
