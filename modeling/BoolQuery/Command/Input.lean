/-
# Reading the lines

The lines of a command come from the command line, a file or the standard input. Files and the
standard input must be UTF-8.
-/

import BoolQuery.Command.Options
import BoolQuery.Text.Lines

namespace BoolQuery
namespace Command

/-- Why something could not be read. -/
inductive ReadError
  | notFound
  | notADirectory
  | isADirectory
  | nameTooLong
  /-- A name holds the character NUL, which ends names in calls of the system. -/
  | nulInName
  | notUtf8
  /-- Any other failure, in the words of the system. -/
  | other (text : String)
  deriving DecidableEq, Repr

/-- The failure in words, with the number that the system gives it, if it does. -/
def ReadError.message : ReadError → String
  | notFound => "No such file or directory (os error 2)"
  | notADirectory => "Not a directory (os error 20)"
  | isADirectory => "Is a directory (os error 21)"
  | nameTooLong => "File name too long (os error 36)"
  | nulInName => "file name contained an unexpected NUL byte"
  | notUtf8 => "stream did not contain valid UTF-8"
  | other text => text

/-- Why there are no lines. -/
inductive InputError
  | stdin (cause : ReadError)
  | file (path : String) (cause : ReadError)
  deriving DecidableEq, Repr

/-- The failure in words. -/
def InputError.message : InputError → String
  | stdin cause => "failed to read stdin: " ++ cause.message
  | file path cause => "failed to read '" ++ path ++ "': " ++ cause.message

/-- A text and how it splits into lines. -/
structure Input where
  rule : Text.LineRule
  text : String

/-- The lines of an input, without their terminators. -/
def Input.lines (input : Input) : List String := input.rule.lines input.text

/-- The text that some bytes are the UTF-8 form of. -/
def decode (bytes : ByteArray) : Except ReadError String :=
  match String.fromUTF8? bytes with
  | some text => .ok text
  | none => .error .notUtf8

/-- Loads the input from where it comes from. -/
def Origin.load (readFile : String → Except ReadError ByteArray)
    (stdin : Except ReadError ByteArray) : Origin → Except InputError Input
  | .inline text => .ok ⟨.inline, text⟩
  | .file path =>
    match readFile path >>= decode with
    | .ok text => .ok ⟨.stream, text⟩
    | .error cause => .error (.file path cause)
  | .stdin =>
    match stdin >>= decode with
    | .ok text => .ok ⟨.stream, text⟩
    | .error cause => .error (.stdin cause)

end Command
end BoolQuery
