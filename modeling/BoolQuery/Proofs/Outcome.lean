/-
# What an attempt comes to

The answer for a line is told by what `Query` answered and by the state it left, and the events are
those it showed: asking for the end of the line shows nothing more.
-/

import BoolQuery.Recognizer.Run

namespace BoolQuery

open Recognizer RecognizerM

namespace Recognizer

/-- The answer of an attempt in which `Query` answered with `root?` and left this state. -/
def State.answer (s : State) (root? : Option Tree) : Except Rejection Tree :=
  let next := s.reader.next.1
  if s.spent then .error .nestingLimit
  else match root? with
    | some root =>
      if next.kind = .token .eof then .ok root
      else .error (.trailingInput next.kind next.text next.span)
    | none =>
      let found := s.furthest.getD next
      .error (.noMatch found.kind found.span)

/-- A tree for `Query` is the answer if the end of the line follows. -/
theorem State.answer_some {s : State} {root : Tree} (hs : s.spent = false) :
    s.answer (some root) =
      if s.reader.next.1.kind = .token .eof then .ok root
      else .error (.trailingInput s.reader.next.1.kind s.reader.next.1.text
        s.reader.next.1.span) := by
  rw [answer.eq_def, if_neg (by rw [hs]; exact Bool.false_ne_true)]

/-- Without a tree for `Query` the answer names the furthest mismatch, or else the next token. -/
theorem State.answer_none {s : State} (hs : s.spent = false) :
    s.answer none = .error (.noMatch (s.furthest.getD s.reader.next.1).kind
      (s.furthest.getD s.reader.next.1).span) := by
  rw [answer.eq_def, if_neg (by rw [hs]; exact Bool.false_ne_true)]

/-- Once the limit has tripped the answer is that it has. -/
theorem State.answer_spent {s : State} {root? : Option Tree} (hs : s.spent = true) :
    s.answer root? = .error .nestingLimit := by
  rw [answer.eq_def, if_pos hs]

end Recognizer

/-- Behind `Query` an attempt comes to its answer and shows nothing more. -/
theorem parse_run {s u : State} {root? : Option Tree}
    (h : RecognizerM.rule (.node .query) s = .ok root? u) :
    ∃ v, parse s = .ok (u.answer root?) v ∧ v.events = u.events := by
  rw [parse, bind_run h, bind_run (get_run u)]
  unfold State.answer
  split
  · exact ⟨u, rfl, rfl⟩
  · cases root? with
    | some root =>
      refine ⟨{ u with reader := u.reader.next.2 }, ?_, rfl⟩
      show (nextToken >>= _) u = _
      rw [bind_run (nextToken_run u)]
      dsimp only
      split <;> rfl
    | none =>
      cases u.furthest with
      | some t => exact ⟨u, rfl, rfl⟩
      | none => exact ⟨_, rfl, rfl⟩

/-- **`Query` answers on every line and under every limit**, and the answer for the line and its
events follow from that. -/
theorem exists_recognizeTraced (limit : Option Nat) (line : String) :
    ∃ root? u, RecognizerM.rule (.node .query) (State.start line limit) = .ok root? u ∧
      recognizeTraced limit line = (u.answer root?, u.events.toList) := by
  obtain ⟨root?, u, h⟩ := rule_answers .query (State.start line limit)
  obtain ⟨v, hv, hevents⟩ := parse_run h
  rw [State.parse_eq_finish] at hv
  obtain ⟨hanswer, hstate⟩ := EStateM.Result.ok.inj hv
  refine ⟨root?, u, h, ?_⟩
  rw [recognizeTraced, ← hanswer, ← hevents, ← hstate]

end BoolQuery
