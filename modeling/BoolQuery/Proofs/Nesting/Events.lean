/-
# Productions open and close

Among the events of an attempt those count here that open a production or close one. A stretch of
events is level if it closes as many productions as it opens; its nesting is the greatest number of
productions that are open at once in it.
-/

import BoolQuery.Proofs.Nesting.Crest
import BoolQuery.Recognizer.Runs

namespace BoolQuery
namespace Recognizer

/-- The event opens a production. -/
def Event.opens : Event → Bool
  | .enter _ => true
  | _ => false

/-- The event closes a production. -/
def Event.closes : Event → Bool
  | .matched _ => true
  | .failed _ => true
  | _ => false

@[simp] theorem Event.opens_enter (k : Kind) : (Event.enter k).opens = true := rfl

@[simp] theorem Event.closes_enter (k : Kind) : (Event.enter k).closes = false := rfl

/-- The event that closes a production whose right-hand side answered with `f`. -/
def Event.closing (k : NodeKind) : Option Forest → Event
  | none => .failed (.node k)
  | some children => .matched (.node k children)

/-- The event that closes a production opens none. -/
@[simp] theorem Event.opens_closing (k : NodeKind) (f : Option Forest) :
    (Event.closing k f).opens = false := by cases f <;> rfl

/-- The event that closes a production closes one. -/
@[simp] theorem Event.closes_closing (k : NodeKind) (f : Option Forest) :
    (Event.closing k f).closes = true := by cases f <;> rfl

/-- The events of a production whose right-hand side answered with `f` and showed `es`. -/
def Event.around (k : NodeKind) (f : Option Forest) (es : List Event) : List Event :=
  .enter (.node k) :: (es ++ [.closing k f])

/-- The greatest number of productions that are open at once while the events are seen. -/
def nesting (es : List Event) : Nat := crest Event.opens Event.closes es

/-- The events close as many productions as they open. -/
def Level (es : List Event) : Prop := es.countP Event.opens = es.countP Event.closes

/-- Level events one after the other are level. -/
theorem Level.append {es fs : List Event} (h : Level es) (h' : Level fs) : Level (es ++ fs) := by
  rw [Level, List.countP_append, List.countP_append, h, h']

/-- Level events are level with the beginning and the end of a production around them. -/
theorem Level.around {es : List Event} (h : Level es) (k : NodeKind) (f : Option Forest) :
    Level (Event.around k f es) := by
  simp [Level, Event.around, List.countP_cons, h.symm]

/-- Behind level events the nesting begins anew. -/
theorem nesting_append {es fs : List Event} (h : Level es) :
    nesting (es ++ fs) = max (nesting es) (nesting fs) := crest_append_of_level h

/-- A production is open while its right-hand side is matched. -/
theorem nesting_around {es : List Event} (h : Level es) (k : NodeKind) (f : Option Forest) :
    nesting (Event.around k f es) = nesting es + 1 := by
  simp [nesting, Event.around, crest_cons, crest_append_of_level h]

end Recognizer

namespace RecognizerM

open Recognizer

/-- Closing a production shows one event more. -/
theorem toList_closed (k : NodeKind) (f : Option Forest) (u : State) :
    (closed k f u).events.toList = u.events.toList ++ [.closing k f] := by
  cases f <;> exact Array.toList_push

/-- What a right-hand side shows stands between the beginning and the end of its production. -/
theorem toList_around {k : NodeKind} (f : Option Forest) {s u : State} {es : List Event}
    (h : u.events.toList = (opened (.node k) s).events.toList ++ es) :
    (closed k f u).events.toList = s.events.toList ++ Event.around k f es := by
  rw [toList_closed, h, opened, Array.toList_push, Event.around]
  simp only [List.append_assoc, List.cons_append, List.nil_append]

end RecognizerM
end BoolQuery
