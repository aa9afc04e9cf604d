/-
# Running productions

A production is opened, matched as the grammar says, and closed. Productions are nested without
end only through groups, and a group begins with a parenthesis: with `n` tokens to come no more
than `4 * n + 6` productions are ever open above the first one, and that many are provided for.
-/

import BoolQuery.Recognizer.Matching

namespace BoolQuery

/-- A bound on how many productions may come to be open one inside another. -/
def Recognizer.State.nesting (s : Recognizer.State) : Nat := 4 * s.reader.size + 6

namespace RecognizerM

/-- Runs the production of a kind, at most `bound` of them one inside another. -/
def ruleWithin : Nat → Kind → RecognizerM (Option Tree)
  | 0, _ => throw .endless
  | bound + 1, kind => do
    if ← openRule then
      emit (.enter kind)
      match kind with
      | .node k =>
        let children? ← body (ruleWithin bound) (Grammar.body k)
        closeRule
        match children? with
        | some children =>
          emit (.matched (.node k children))
          return some (.node k children)
        | none =>
          emit (.failed kind)
          return none
      | _ => throw (.unsupportedRule kind)
    else
      return none

/-- Runs the production of a kind. -/
def rule (kind : Kind) : RecognizerM (Option Tree) := do
  ruleWithin (← get).nesting kind

end RecognizerM
end BoolQuery
