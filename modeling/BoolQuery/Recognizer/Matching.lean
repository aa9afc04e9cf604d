/-
# Matching the right-hand sides of productions

Every way of matching either succeeds with the trees of what it read, or fails and leaves the
tokens to come as they were: a sequence that misses gives back all it has read, nested productions
included. The productions themselves are a parameter here.

A repetition whose tail matches without reading would go on for ever. As each tail that reads
brings the end of the line nearer, and one that reads nothing ends the repetition only by spending
the attempt, a repetition that goes on for longer than there are tokens to come, and once more,
ends as a fault.
-/

import BoolQuery.Grammar
import BoolQuery.Recognizer.State

namespace BoolQuery
namespace RecognizerM

open Grammar

variable (rule : Kind → RecognizerM (Option Tree))

mutual

/-- Matches one step. -/
def step : Designator → RecognizerM (Option Forest)
  | .terminal kind => return (← terminal kind).map fun t => [.leaf t]
  | .rule kind => return (← rule kind).map fun t => [t]
  | .optional steps => return some ((← stepsFrom [] steps).getD [])

/-- Matches the steps in order after the trees in `done`; on a miss all is given back. -/
def stepsFrom (done : Forest) : List Designator → RecognizerM (Option Forest)
  | [] => return some done
  | d :: ds => do
    match ← step d with
    | some more => stepsFrom (done ++ more) ds
    | none =>
      unread done
      return none

end

/-- Matches all steps in order. -/
def sequence (steps : List Designator) : RecognizerM (Option Forest) :=
  stepsFrom rule [] steps

/-- The first alternative that matches. -/
def choice : List (List Designator) → RecognizerM (Option Forest)
  | [] => return none
  | steps :: rest => do
    match ← sequence rule steps with
    | some f => return some f
    | none => choice rest

/-- The steps in order, or nothing. -/
def optional (steps : List Designator) : RecognizerM Forest :=
  return (← choice rule [steps, []]).getD []

/-- Matches the tail as often as it matches, less than `bound` times, and stops when the attempt
is spent. -/
def tails (tail : List Designator) : Nat → RecognizerM Forest
  | 0 => throw .endless
  | bound + 1 => do
    if (← get).spent then
      return []
    else
      match ← sequence rule tail with
      | some more => return more ++ (← tails tail bound)
      | none => return []

/-- The head once, and then the tail as often as it matches. -/
def repetition (head tail : List Designator) : RecognizerM (Option Forest) := do
  match ← sequence rule head with
  | some first => return some (first ++ (← tails rule tail ((← get).reader.size + 2)))
  | none => return none

/-- Matches the right-hand side of a production. -/
def body : Body → RecognizerM (Option Forest)
  | .choice alternatives => choice rule alternatives
  | .repetition head tail => repetition rule head tail

end RecognizerM
end BoolQuery
