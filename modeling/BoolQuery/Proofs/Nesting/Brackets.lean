/-
# Events are nested like brackets

A production that is entered is matched or fails behind everything that is entered within it. Read
from left to right such events keep a stack of productions, and only the one on top is closed:

| event | the stack behind it |
| --- | --- |
| a production begins | with the production on top |
| a production matched or failed | without the top, which is that production |
| tokens are given back | the same |

A trace of such events is indented by what is on the stack, so behind them it is indented as before
(`depth_recordAll_of_bracketed`), and where one of them closes a production it is indented further
(`depth_lt_of_bracketed`).
-/

import BoolQuery.Proofs.Nesting.Events
import BoolQuery.Report.Trace

namespace BoolQuery
namespace Recognizer

/-! ### Stacks of productions -/

/-- The stack behind the end of a production, which has to be on top. -/
def popped (k : Kind) : List Kind → Option (List Kind)
  | top :: stack => if top = k then some stack else none
  | [] => none

/-- The end of a production takes one off the stack. -/
theorem length_popped {k : Kind} {stack stack' : List Kind} (h : popped k stack = some stack') :
    stack'.length + 1 = stack.length := by
  cases stack with
  | nil => cases h
  | cons top stack =>
    rw [popped] at h
    split at h
    · cases h
      rfl
    · cases h

/-- The stack behind an event, if the event may stand there. -/
def Event.onto (stack : List Kind) : Event → Option (List Kind)
  | .enter k => some (k :: stack)
  | .matched t => popped t.kind stack
  | .failed k => popped k stack
  | .backtrack _ => some stack

/-- The stack behind events, if all of them may stand there. -/
def stackAfter (stack : List Kind) (es : List Event) : Option (List Kind) :=
  es.foldlM Event.onto stack

/-- The stack grows by one behind the beginning of a production and shrinks by one behind its
end. -/
theorem length_onto {e : Event} {stack stack' : List Kind} (h : e.onto stack = some stack') :
    stack'.length + (if e.closes then 1 else 0) = stack.length + (if e.opens then 1 else 0) := by
  cases e with
  | enter k =>
    cases h
    rfl
  | matched t => exact length_popped h
  | failed k => exact length_popped h
  | backtrack ts =>
    cases h
    rfl

/-- Events that close what they open, and nothing else. -/
def Bracketed (es : List Event) : Prop := ∀ stack, stackAfter stack es = some stack

/-- An event has its effect on the stack before those behind it. -/
theorem stackAfter_cons (stack : List Kind) (e : Event) (es : List Event) :
    stackAfter stack (e :: es) = (e.onto stack).bind fun stack => stackAfter stack es :=
  List.foldlM_cons

/-- Events one after the other have their effects on the stack in turn. -/
theorem stackAfter_append (stack : List Kind) (es fs : List Event) :
    stackAfter stack (es ++ fs) = (stackAfter stack es).bind fun stack => stackAfter stack fs :=
  List.foldlM_append

/-- The event that closes a production takes it off the top of the stack. -/
theorem onto_closing (k : NodeKind) (f : Option Forest) (stack : List Kind) :
    (Event.closing k f).onto (.node k :: stack) = some stack := by
  cases f <;> exact if_pos rfl

namespace Bracketed

variable {es fs : List Event}

/-- No events are bracketed. -/
theorem nil : Bracketed [] := fun _ => rfl

/-- Bracketed events one after the other are bracketed. -/
theorem append (h : Bracketed es) (h' : Bracketed fs) : Bracketed (es ++ fs) := fun stack => by
  rw [stackAfter_append, h stack, Option.bind_some, h' stack]

/-- Giving tokens back opens and closes nothing. -/
theorem backtrack (ts : List Token) : Bracketed [.backtrack ts] := fun _ => rfl

/-- A production closes what it opens. -/
theorem around (h : Bracketed es) (k : NodeKind) (f : Option Forest) :
    Bracketed (Event.around k f es) := fun stack => by
  rw [Event.around, stackAfter_cons, Event.onto, Option.bind_some, stackAfter_append, h,
    Option.bind_some, stackAfter_cons, onto_closing]
  rfl

end Bracketed

end Recognizer

/-! ### The indentation of traces -/

namespace Report
namespace Trace

open Recognizer

@[simp] theorem depth_addLine (trace : Trace) (line : String) :
    (trace.addLine line).depth = trace.depth := rfl

/-- A trace is indented by what is on the stack. -/
theorem depth_record (style : TraceStyle) {trace : Trace} {e : Event} {stack stack' : List Kind}
    {base : Nat} (h : e.onto stack = some stack') (hdepth : trace.depth = base + stack.length) :
    (trace.record style e).depth = base + stack'.length := by
  have hpop : ∀ k, popped k stack = some stack' → trace.depth - 1 = base + stack'.length := by
    intro k hk
    have hlength := length_popped hk
    omega
  cases e with
  | enter k =>
    cases h
    simp only [record, depth_addLine, hdepth, List.length_cons, Nat.add_assoc]
  | matched t => exact hpop t.kind h
  | failed k => exact hpop k h
  | backtrack ts =>
    cases h
    rw [record]
    split <;> exact hdepth

/-- Behind recorded events a trace is as deep as the stack is high. -/
theorem depth_recordAll (style : TraceStyle) {trace : Trace} {es : List Event}
    {stack stack' : List Kind} {base : Nat} (h : stackAfter stack es = some stack')
    (hdepth : trace.depth = base + stack.length) :
    (trace.recordAll style es).depth = base + stack'.length := by
  induction es generalizing trace stack with
  | nil =>
    cases h
    exact hdepth
  | cons e es ih =>
    rw [stackAfter_cons, Option.bind_eq_some_iff] at h
    obtain ⟨behind, he, hes⟩ := h
    exact ih hes (depth_record style he hdepth)

/-- Behind events that close what they open a trace is indented as before. -/
theorem depth_recordAll_of_bracketed (style : TraceStyle) (trace : Trace) {es : List Event}
    (h : Bracketed es) : (trace.recordAll style es).depth = trace.depth :=
  depth_recordAll style (h []) rfl

/-- Within such events a production is closed only where a trace is indented further than before. -/
theorem depth_lt_of_bracketed (style : TraceStyle) (trace : Trace) {seen rest : List Event}
    {e : Event} (h : Bracketed (seen ++ e :: rest)) (he : e.closes = true) :
    trace.depth < (trace.recordAll style seen).depth := by
  have hstack := h []
  rw [stackAfter_append, Option.bind_eq_some_iff] at hstack
  obtain ⟨stack, hseen, hrest⟩ := hstack
  have hdepth : trace.depth = trace.depth + ([] : List Kind).length := rfl
  rw [depth_recordAll style hseen hdepth]
  cases stack with
  | cons top stack =>
    rw [List.length_cons]
    omega
  | nil =>
    -- Nothing is left to be closed by the event.
    rw [stackAfter_cons] at hrest
    cases e with
    | enter k => cases he
    | backtrack ts => cases he
    | matched t => cases hrest
    | failed k => cases hrest

end Trace
end Report

end BoolQuery
