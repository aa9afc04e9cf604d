/-
# Recognizing a line

A line is a query if the production `Query` matches and nothing but the end of the line follows.
An attempt on a line always comes to an answer.
-/

import BoolQuery.Recognizer.Totality
import BoolQuery.Rejection

namespace BoolQuery
namespace RecognizerM

/-- Runs `Query` and asks for the end of the line after it. -/
def parse : RecognizerM (Except Rejection Tree) := do
  let root? ← rule (.node .query)
  let s ← get
  if s.spent then
    return .error .nestingLimit
  else
    match root? with
    | some root =>
      let t ← nextToken
      if t.kind = .token .eof then
        return .ok root
      else
        return .error (.trailingInput t.kind t.text t.span)
    | none =>
      match s.furthest with
      | some t => return .error (.noMatch t.kind t.span)
      | none =>
        let t ← nextToken
        return .error (.noMatch t.kind t.span)

/-- An attempt answers from every state. -/
theorem parse_answers (s : Recognizer.State) : Answers parse s := by
  unfold parse
  refine (rule_answers .query s).bind fun root? t _ => ?_
  refine Answers.bind ⟨t, t, rfl⟩ fun _ _ hg => ?_
  cases hg
  split
  · exact .pure _ t
  · split
    · refine Answers.bind ⟨_, _, nextToken_run t⟩ fun u w _ => ?_
      split <;> exact .pure _ w
    · split
      · exact .pure _ t
      · exact Answers.bind ⟨_, _, nextToken_run t⟩ fun u w _ => .pure _ w

end RecognizerM

namespace Recognizer

/-- The answer of an attempt, and the state it ends in. -/
def State.finish (s : State) : Except Rejection Tree × State :=
  match h : RecognizerM.parse s with
  | .ok answer s' => (answer, s')
  | .error fault s' => absurd (RecognizerM.parse_answers s) (by simp [RecognizerM.Answers, h])

/-- The attempt is run by `finish`. -/
theorem State.parse_eq_finish (s : State) :
    RecognizerM.parse s = .ok s.finish.1 s.finish.2 := by
  unfold finish
  split
  · rename_i h
    exact h
  · rename_i h
    exact absurd (RecognizerM.parse_answers s) (by simp [RecognizerM.Answers, h])

end Recognizer

open Recognizer

/-- Recognizes a line, with a limit on the nesting of productions or none, and tells what an
observer saw. -/
def recognizeTraced (limit : Option Nat) (line : String) : Except Rejection Tree × List Event :=
  let (answer, s) := (State.start line limit).finish
  (answer, s.events.toList)

/-- Recognizes a line, with a limit on the nesting of productions or none. -/
def recognize (limit : Option Nat) (line : String) : Except Rejection Tree :=
  (recognizeTraced limit line).1

end BoolQuery
