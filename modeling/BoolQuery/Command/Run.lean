/-
# Running a command

A command reports on each line by itself. The exit status is 1 if a line is no query, except for
`tokens`, which takes any line, and 1 if there are no lines to be had.
-/

import BoolQuery.Command.Input
import BoolQuery.Recognizer.Run
import BoolQuery.Report.Explanation
import BoolQuery.Report.TokenListing
import BoolQuery.Report.Trace
import BoolQuery.Report.TreeListing

namespace BoolQuery

namespace Command

/-- What a command writes about one line, or about all. -/
structure Output where
  stdout : String
  stderr : String
  /-- Every line is a query, as far as the command asks. -/
  accepted : Bool
  deriving DecidableEq, Repr

/-- Nothing written, nothing refused. -/
def Output.empty : Output := ⟨"", "", true⟩

/-- One output after the other. -/
def Output.append (a b : Output) : Output :=
  ⟨a.stdout ++ b.stdout, a.stderr ++ b.stderr, a.accepted && b.accepted⟩

/-- The exit status. -/
def Output.exitCode (o : Output) : Nat := if o.accepted then 0 else 1

/-- A command writes its verdict on a line. -/
def checkLine (explain coloured : Bool) (limit : Option Nat) (line : String) : Output :=
  let result := recognize limit line
  match result with
  | .ok _ => ⟨verdict result ++ "\n", "", true⟩
  | .error why =>
    ⟨verdict result ++ "\n", if explain then why.render coloured line ++ "\n" else "", false⟩

/-- A command lists the tokens of a line. -/
def tokensLine (json : Bool) (line : String) : Output :=
  ⟨if json then Report.TokenListing.json (lex line) ++ "\n"
    else Report.TokenListing.text (lex line), "", true⟩

/-- A command lists the tree of a line, or explains why there is none. -/
def treeLine (style : Report.TreeStyle) (coloured : Bool) (limit : Option Nat) (line : String) :
    Output :=
  match recognize limit line with
  | .ok tree => ⟨style.dump tree, "", true⟩
  | .error why => ⟨"", why.render coloured line ++ "\n", false⟩

/-- The line between a trace and its verdict. -/
def separator (palette : Report.Palette) : String := palette.dim ++ "---" ++ palette.reset

/-- A command traces a line and writes its verdict on it. -/
def traceLine (style : Report.TraceStyle) (limit : Option Nat) (line : String) : Output :=
  let (result, events) := recognizeTraced limit line
  ⟨(Report.Trace.empty.recordAll style events).dump ++ separator style.palette ++ "\n" ++
    verdict result ++ "\n", "", result.isOk⟩

/-- What is written about a line, given whether standard output and standard error are terminals. -/
def Task.line (outTerminal errTerminal : Bool) : Task → String → Output
  | .check explain common => checkLine explain (common.colour.resolve errTerminal) common.limit
  | .tokens json => tokensLine json
  | .tree raw spans common =>
    treeLine ⟨raw, spans⟩ (common.colour.resolve errTerminal) common.limit
  | .trace verbose common =>
    traceLine ⟨verbose, .of (common.colour.resolve outTerminal)⟩ common.limit

/-- What is written about an input, line by line. -/
def Task.run (task : Task) (outTerminal errTerminal : Bool) (input : Input) : Output :=
  (input.lines.map (task.line outTerminal errTerminal)).foldl Output.append .empty

/-- What is written when there are no lines to be had. -/
def InputError.output (e : InputError) : Output := ⟨"", "error: " ++ e.message ++ "\n", false⟩

/-- What an invocation writes about its input, if that could be loaded. -/
def Invocation.run (i : Invocation) (outTerminal errTerminal : Bool) :
    Except InputError Input → Output
  | .ok input => i.task.run outTerminal errTerminal input
  | .error e => e.output

end Command
end BoolQuery
