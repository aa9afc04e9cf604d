/-
# Traces

A trace is a list of lines about what an attempt did, each indented by two spaces for every
production that was entered and not left when it was written:

| event | line |
| --- | --- |
| a production begins | `Parsing` and its name; what follows is indented further |
| a production matched | back at the level of its beginning: its name, `matched` |
| a production failed | back at the level of its beginning: its name, `failed` |
| tokens are given back | only in a verbose trace: how many, and their text |

A verbose trace also gives the text that a production matched.
-/

import BoolQuery.Recognizer.State
import BoolQuery.Report.Palette
import BoolQuery.Text.Quoted

namespace BoolQuery
namespace Report

open Recognizer

/-- How a trace is written. -/
structure TraceStyle where
  verbose : Bool
  palette : Palette

/-- A trace so far. -/
structure Trace where
  /-- How many productions were entered and not left. -/
  depth : Nat
  lines : Array String

namespace Trace

/-- A trace without lines. -/
def empty : Trace := ⟨0, #[]⟩

/-- The indentation at a depth. -/
def indent (depth : Nat) : String := String.ofList (List.replicate (2 * depth) ' ')

/-- Adds a line at the depth of the trace. -/
def addLine (trace : Trace) (line : String) : Trace :=
  { trace with lines := trace.lines.push (indent trace.depth ++ line) }

/-- What is said about tokens that are given back. -/
def backtrackText (tokens : List Token) : String :=
  "pushed back " ++ toString tokens.length ++
    (if tokens.length = 1 then " token " else " tokens ") ++
    Text.Quoted.quote (Token.joined tokens)

/-- Adds an event to a trace. -/
def record (style : TraceStyle) (trace : Trace) (event : Event) : Trace :=
  let p := style.palette
  match event with
  | .enter rule =>
    let trace := trace.addLine ("Parsing " ++ p.blue ++ rule.name ++ p.reset)
    { trace with depth := trace.depth + 1 }
  | .matched node =>
    let head := p.blue ++ node.kind.name ++ p.reset ++ " matched"
    let text :=
      if style.verbose then " " ++ p.green ++ Text.Quoted.quote node.text ++ p.reset else ""
    { trace with depth := trace.depth - 1 }.addLine (head ++ text)
  | .failed rule =>
    { trace with depth := trace.depth - 1 }.addLine
      (p.blue ++ rule.name ++ p.reset ++ " " ++ p.red ++ "failed" ++ p.reset)
  | .backtrack tokens =>
    if style.verbose then trace.addLine (p.dim ++ backtrackText tokens ++ p.reset) else trace

/-- Adds events to a trace, in order. -/
def recordAll (style : TraceStyle) (trace : Trace) (events : List Event) : Trace :=
  events.foldl (record style) trace

/-- The lines of a trace, each ended by a line feed. -/
def dump (trace : Trace) : String := String.join (trace.lines.toList.map (· ++ "\n"))

end Trace

end Report
end BoolQuery
