/-
# The state of one recognition attempt

An attempt runs over one line. It holds the reader, how many productions are open, the token
furthest into the line that was not the one asked for, and what happened so far. When a production
is to be opened beyond the limit, the attempt is spent: from then on no production opens.
-/

import BoolQuery.Reader
import BoolQuery.Tree

namespace BoolQuery
namespace Recognizer

/-- What an observer of an attempt sees. -/
inductive Event
  /-- A production begins. -/
  | enter (rule : Kind)
  /-- A production matched; its node. -/
  | matched (node : Tree)
  /-- A production failed, and the reader is back where it began. -/
  | failed (rule : Kind)
  /-- Tokens are given back to the reader, listed in the order of the line. -/
  | backtrack (tokens : List Token)

/-- What ends an attempt without an answer. -/
inductive Fault
  /-- A single token was asked for by a kind that no token has by the lexical rules. -/
  | unsupportedTerminal (kind : Kind)
  /-- A production was asked for by a kind that has none. -/
  | unsupportedRule (kind : Kind)
  /-- A node was to be built with a kind that is not of a node. -/
  | notANode (kind : Kind)
  /-- The attempt would never end. -/
  | endless
  deriving DecidableEq, Repr

/-- The fault in words. -/
def Fault.message : Fault → String
  | unsupportedTerminal kind => unsupported ("Terminal(" ++ kind.name ++ ")")
  | unsupportedRule kind => unsupported ("Rule(" ++ kind.name ++ ")")
  | notANode kind => "Node::new: " ++ kind.name ++ " is not a node kind"
  | endless => "endless repetition"
where
  /-- The wording for a step of a right-hand side that cannot be taken. -/
  unsupported (designator : String) : String :=
    "unsupported designator: " ++ designator ++
      " (terminals take token kinds, rules take node kinds)"

/-- The state of one attempt. -/
structure State where
  reader : Reader
  /-- How many productions are open. -/
  depth : Nat
  /-- How many productions may be open at once, if that is limited. -/
  limit : Option Nat
  /-- A production was to be opened beyond the limit. -/
  spent : Bool
  /-- The token furthest into the line that was not the one asked for. -/
  furthest : Option Token
  events : Array Event

/-- Of a token seen before, if there is one, and a new token: the one further into the line, the
one seen before if they start at the same place. -/
def further (seen : Option Token) (t : Token) : Option Token :=
  if seen.all fun u => u.span.start < t.span.start then some t else seen

/-- The state at the start of a line. -/
def State.start (line : String) (limit : Option Nat) : State where
  reader := .ofString line
  depth := 0
  limit := limit
  spent := false
  furthest := none
  events := #[]

end Recognizer

/-- Steps of an attempt. -/
abbrev RecognizerM := EStateM Recognizer.Fault Recognizer.State

namespace RecognizerM

open Recognizer

/-- Lets an observer see an event. -/
def emit (e : Event) : RecognizerM Unit :=
  modify fun s => { s with events := s.events.push e }

/-- Reads one token. -/
def nextToken : RecognizerM Token :=
  modifyGet fun s => (s.reader.next.1, { s with reader := s.reader.next.2 })

/-- Reads up to the first token without width. -/
def drain : RecognizerM (List Token) :=
  modifyGet fun s => (s.reader.drain.1, { s with reader := s.reader.drain.2 })

/-- Gives tokens back that were read in this order. -/
def giveBack (ts : List Token) : RecognizerM Unit :=
  modify fun s => { s with reader := s.reader.pushAll ts }

/-- Remembers a token that was not the one asked for, if it is the furthest. -/
def noteMismatch (t : Token) : RecognizerM Unit :=
  modify fun s => { s with furthest := further s.furthest t }

/-- Opens a production if the limit allows it, and tells whether it did. -/
def openRule : RecognizerM Bool :=
  modifyGet fun s =>
    if s.spent then (false, s)
    else if s.limit.any (· ≤ s.depth) then (false, { s with spent := true })
    else (true, { s with depth := s.depth + 1 })

/-- Closes the production opened last. -/
def closeRule : RecognizerM Unit :=
  modify fun s => { s with depth := s.depth - 1 }

/-- Reads one token of the given kind; any other is given back at once. -/
def terminal (kind : Kind) : RecognizerM (Option Token) :=
  match kind with
  | .token _ => do
    let t ← nextToken
    if t.kind = kind then
      return some t
    else
      noteMismatch t
      giveBack [t]
      return none
  | _ => throw (.unsupportedTerminal kind)

/-- Gives back all tokens of a forest. Without trees there is nothing to tell either. -/
def unread (f : Forest) : RecognizerM Unit :=
  if f.isEmpty then pure ()
  else do
    emit (.backtrack (Tree.forestTokens f))
    giveBack (Tree.forestTokens f)

end RecognizerM

/-- A node over the given trees, if the kind is of a node. -/
def Recognizer.node? (kind : Kind) (children : Forest) : Except Recognizer.Fault Tree :=
  match kind with
  | .node k => .ok (.node k children)
  | _ => .error (.notANode kind)

end BoolQuery
