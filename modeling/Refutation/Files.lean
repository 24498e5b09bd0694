/-
Reading files.

A file reader gives the bytes behind a path or the reason why there are none. `Directory.read` is the reader of a
directory of plain files: `.` is the directory itself, `..` and `/` are directories of which nothing else is known, and a
file has nothing below it.
-/
import Refutation.Text.Cut

namespace Refutation

/-- why a file cannot be read -/
inductive FileError where
  | notFound
  | notDirectory
  | isDirectory
  | nameTooLong
  | zeroInName
  | notText
  | other (message : String)
deriving DecidableEq, Repr

/-- the wording of a failure -/
def FileError.message : FileError → String
  | .notFound => "No such file or directory (os error 2)"
  | .notDirectory => "Not a directory (os error 20)"
  | .isDirectory => "Is a directory (os error 21)"
  | .nameTooLong => "File name too long (os error 36)"
  | .zeroInName => "file name contained an unexpected NUL byte"
  | .notText => "stream did not contain valid UTF-8"
  | .other message => message

/-- the bytes behind a path -/
abbrev FileReader := String → Except FileError ByteArray

/-- the text that bytes encode in UTF-8 -/
def decodeText (bytes : ByteArray) : Except FileError String :=
  match String.fromUTF8? bytes with
  | some text => .ok text
  | none => .error .notText

/-- the text of a file -/
def FileReader.text (reader : FileReader) (path : String) : Except FileError String :=
  match reader path with
  | .ok bytes => decodeText bytes
  | .error e => .error e

/-- a directory of plain files -/
structure Directory where
  files : List (String × ByteArray) := []

namespace Directory

/-- bytes that a path may have -/
def pathLimit : Nat := 4095

/-- bytes that one name may have -/
def nameLimit : Nat := 255

/-- a step of a path that only says which directory is meant -/
def isDot (name : String) : Bool := name == "" || name == "." || name == ".."

/-- below a directory of which nothing is known -/
def readOutside : List String → Except FileError ByteArray
  | [] => .error .isDirectory
  | name :: rest =>
    if isDot name then readOutside rest
    else if nameLimit < name.utf8ByteSize then .error .nameTooLong
    else .error .notFound

/-- below the directory -/
def readInside (d : Directory) : List String → Except FileError ByteArray
  | [] => .error .isDirectory
  | name :: rest =>
    if name == ".." then readOutside rest
    else if isDot name then d.readInside rest
    else if nameLimit < name.utf8ByteSize then .error .nameTooLong
    else
      match d.files.lookup name, rest with
      | none, _ => .error .notFound
      | some bytes, [] => .ok bytes
      | some _, _ :: _ => .error .notDirectory

/-- the bytes behind a path of the directory -/
def read (d : Directory) : FileReader := fun path =>
  if path.isEmpty then .error .notFound
  else if path.toList.contains '\x00' then .error .zeroInName
  else if pathLimit < path.utf8ByteSize then .error .nameTooLong
  else
    match (path.toList.splitOn '/').map String.ofList with
    | "" :: rest => readOutside rest
    | names => d.readInside names

end Directory

end Refutation
