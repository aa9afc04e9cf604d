/-
# The program

Reads the command line and the input that it names, and writes what the command reports.
-/

import BoolQuery.Command.Run

namespace BoolQuery
namespace Command

/-- The number of a system error, which may be reported negated. -/
def errorNumber (code : UInt32) : Nat :=
  if code.toNat < 0x80000000 then code.toNat else 0x100000000 - code.toNat

/-- What to say about a failure to read that the system reports. -/
def readError : IO.Error → ReadError
  | .noFileOrDirectory .. => .notFound
  | .inappropriateType file code details =>
    match errorNumber code with
    | 20 => .notADirectory
    | 21 => .isADirectory
    | _ => .other (toString (IO.Error.inappropriateType file code details))
  | .invalidArgument file code details =>
    if errorNumber code = 36 then .nameTooLong
    else .other (toString (IO.Error.invalidArgument file code details))
  | e => .other (toString e)

/-- Reads a stream to its end. -/
partial def readToEnd (stream : IO.FS.Stream) (read : ByteArray) : IO ByteArray := do
  let more ← stream.read 65536
  if more.isEmpty then return read else readToEnd stream (read ++ more)

/-- The outcome of reading, with a failure as a value. -/
def attempt (read : IO ByteArray) : IO (Except ReadError ByteArray) := do
  try
    return .ok (← read)
  catch e =>
    return .error (readError e)

/-- The input that an origin names. -/
def loadInput (origin : Origin) : IO (Except InputError Input) := do
  let nothing : Except ReadError ByteArray := .ok .empty
  match origin with
  | .inline _ => return origin.load (fun _ => nothing) nothing
  | .file path =>
    let bytes ← attempt (IO.FS.readBinFile path)
    return origin.load (fun _ => bytes) nothing
  | .stdin =>
    let bytes ← attempt (do readToEnd (← IO.getStdin) .empty)
    return origin.load (fun _ => nothing) bytes

/-- How the program is used. -/
def usage : String :=
  "Usage: boolquery <COMMAND> [-q QUERY | FILE] [OPTIONS]\n\n" ++
  "Commands:\n" ++
  "  check   Print a verdict for every line [--explain]\n" ++
  "  tokens  Print the tokens of every line [--json]\n" ++
  "  tree    Print the derivation tree of every accepted line [--raw] [--spans]\n" ++
  "  trace   Trace the recognition of every line [-v, --verbose]\n" ++
  "  help    Print this text\n\n" ++
  "Options of check, tree and trace:\n" ++
  "  --color <WHEN>         auto, always or never\n" ++
  "  --recursion-limit <N>  Maximum nesting of productions\n"

/-- Runs the program and answers with its exit status. -/
def runProgram (args : List String) : IO UInt32 := do
  match parse args with
  | .error .help =>
    IO.print usage
    return 0
  | .error e =>
    IO.eprint usage
    return UInt32.ofNat e.exitCode
  | .ok invocation =>
    let outTerminal ← (← IO.getStdout).isTty
    let errTerminal ← (← IO.getStderr).isTty
    let output := invocation.run outTerminal errTerminal (← loadInput invocation.origin)
    IO.print output.stdout
    IO.eprint output.stderr
    return UInt32.ofNat output.exitCode

end Command
end BoolQuery

def main (args : List String) : IO UInt32 := BoolQuery.Command.runProgram args
