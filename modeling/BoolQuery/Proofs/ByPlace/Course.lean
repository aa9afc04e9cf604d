/-
# The course of a match

What matching by place comes to does not tell what was tried on the way. The course of a match does:
it notes, in the order of the run, what an observer sees and the places whose token was not the one
asked for.

| a match of | notes |
| --- | --- |
| a token | nothing, and on a miss the place |
| a production | that it begins, what its body notes, that it matched or failed |
| steps in order | what each of them notes, and on a miss that what was read is given back |
| alternatives | what those up to the first that matches note |
| a repetition | what its head, its tails and the tail that misses note |

Courses are given by rules, one for each way in which a match can go, so that what holds of every
step holds of every course by one induction.
-/

import BoolQuery.Proofs.ByPlace.Basic
import BoolQuery.Proofs.Nesting.Events

namespace BoolQuery
namespace ByPlace

open Grammar Recognizer

/-- What is noted while a match is tried. -/
inductive Note
  /-- What an observer sees. -/
  | event (e : Event)
  /-- The token at the place was not the one asked for. -/
  | mismatch (i : Nat)

namespace Note

/-- What an observer sees. -/
def events (ns : List Note) : List Event :=
  ns.filterMap fun
    | event e => some e
    | mismatch _ => none

/-- The places whose token was not the one asked for. -/
def mismatches (ns : List Note) : List Nat :=
  ns.filterMap fun
    | event _ => none
    | mismatch i => some i

/-- That trees are given back is seen if there are any. -/
def returned : Forest → List Note
  | [] => []
  | t :: ts => [event (.backtrack (Tree.forestTokens (t :: ts)))]

/-- The notes of a production whose body answered with `f`. -/
def around (k : NodeKind) (f : Option Forest) (ns : List Note) : List Note :=
  event (.enter (.node k)) :: (ns ++ [event (.closing k f)])

variable (ns ms : List Note) (f : Forest)

@[simp] theorem events_nil : events [] = [] := rfl

/-- The events of two records one after the other are those of the first and then those of the
second. -/
@[simp] theorem events_append : events (ns ++ ms) = events ns ++ events ms :=
  List.filterMap_append ..

@[simp] theorem events_mismatch (i : Nat) : events [mismatch i] = [] := rfl

/-- Around a rule, the events gain the one that opens it and the one that closes it. -/
@[simp] theorem events_around (k : NodeKind) (f : Option Forest) :
    events (around k f ns) = Event.around k f (events ns) := by
  simp [events, around, Event.around, List.filterMap_append]

@[simp] theorem mismatches_nil : mismatches [] = [] := rfl

/-- The mismatches of two records one after the other are those of the first and then those of the
second. -/
@[simp] theorem mismatches_append :
    mismatches (ns ++ ms) = mismatches ns ++ mismatches ms := List.filterMap_append ..

@[simp] theorem mismatches_mismatch (i : Nat) : mismatches [mismatch i] = [i] := rfl

@[simp] theorem mismatches_returned : mismatches (returned f) = [] := by cases f <;> rfl

/-- Opening and closing a rule records no mismatch. -/
@[simp] theorem mismatches_around (k : NodeKind) (f : Option Forest) :
    mismatches (around k f ns) = mismatches ns := by
  simp [mismatches, around, List.filterMap_append]

end Note

/-- What a match can be asked for. -/
inductive Goal
  | step (d : Designator)
  /-- Steps in order, behind the trees of the steps before them. -/
  | steps (done : Forest) (ds : List Designator)
  | choice (alternatives : List (List Designator))
  | tails (tail : List Designator)
  | repetition (head tail : List Designator)
  | rule (k : NodeKind)

/-- The body of a production as something to be asked for. -/
def Goal.ofBody : Body → Goal
  | .choice alternatives => .choice alternatives
  | .repetition head tail => .repetition head tail

/-- `Course place g i o ns`: asked for `g` at place `i`, matching comes to `o`, and `ns` is what is
noted on the way. -/
inductive Course (place : Nat → Token) : Goal → Nat → Outcome → List Note → Prop
  | token_hit {k : TokenKind} {i : Nat} (h : (place i).kind = .token k) :
      Course place (.step (tok k)) i (some ([.leaf (place i)], i + 1)) []
  | token_miss {k : TokenKind} {i : Nat} (h : (place i).kind ≠ .token k) :
      Course place (.step (tok k)) i none [.mismatch i]
  | sub {k : NodeKind} {i : Nat} {o : Outcome} {ns : List Note}
      (h : Course place (.rule k) i o ns) : Course place (.step (Grammar.sub k)) i o ns
  | optional_hit {ds : List Designator} {i j : Nat} {f : Forest} {ns : List Note}
      (h : Course place (.steps [] ds) i (some (f, j)) ns) :
      Course place (.step (.optional ds)) i (some (f, j)) ns
  | optional_miss {ds : List Designator} {i : Nat} {ns : List Note}
      (h : Course place (.steps [] ds) i none ns) :
      Course place (.step (.optional ds)) i (some ([], i)) ns
  | steps_nil {done : Forest} {i : Nat} : Course place (.steps done []) i (some ([], i)) []
  | steps_miss {done : Forest} {d : Designator} {ds : List Designator} {i : Nat} {ns : List Note}
      (h : Course place (.step d) i none ns) :
      Course place (.steps done (d :: ds)) i none (ns ++ Note.returned done)
  | steps_behind {done f : Forest} {d : Designator} {ds : List Designator} {i j : Nat}
      {ns ms : List Note} (hd : Course place (.step d) i (some (f, j)) ns)
      (hds : Course place (.steps (done ++ f) ds) j none ms) :
      Course place (.steps done (d :: ds)) i none (ns ++ ms)
  | steps_hit {done f g : Forest} {d : Designator} {ds : List Designator} {i j l : Nat}
      {ns ms : List Note} (hd : Course place (.step d) i (some (f, j)) ns)
      (hds : Course place (.steps (done ++ f) ds) j (some (g, l)) ms) :
      Course place (.steps done (d :: ds)) i (some (f ++ g, l)) (ns ++ ms)
  | choice_nil {i : Nat} : Course place (.choice []) i none []
  | choice_hit {ds : List Designator} {rest : List (List Designator)} {i j : Nat} {f : Forest}
      {ns : List Note} (h : Course place (.steps [] ds) i (some (f, j)) ns) :
      Course place (.choice (ds :: rest)) i (some (f, j)) ns
  | choice_next {ds : List Designator} {rest : List (List Designator)} {i : Nat} {o : Outcome}
      {ns ms : List Note} (h : Course place (.steps [] ds) i none ns)
      (hrest : Course place (.choice rest) i o ms) :
      Course place (.choice (ds :: rest)) i o (ns ++ ms)
  | tails_stop {tail : List Designator} {i : Nat} {ns : List Note}
      (h : Course place (.steps [] tail) i none ns) :
      Course place (.tails tail) i (some ([], i)) ns
  | tails_more {tail : List Designator} {i j l : Nat} {f g : Forest} {ns ms : List Note}
      (h : Course place (.steps [] tail) i (some (f, j)) ns)
      (hrest : Course place (.tails tail) j (some (g, l)) ms) :
      Course place (.tails tail) i (some (f ++ g, l)) (ns ++ ms)
  | repetition_miss {head tail : List Designator} {i : Nat} {ns : List Note}
      (h : Course place (.steps [] head) i none ns) :
      Course place (.repetition head tail) i none ns
  | repetition_hit {head tail : List Designator} {i j l : Nat} {f g : Forest} {ns ms : List Note}
      (h : Course place (.steps [] head) i (some (f, j)) ns)
      (hrest : Course place (.tails tail) j (some (g, l)) ms) :
      Course place (.repetition head tail) i (some (f ++ g, l)) (ns ++ ms)
  | rule_miss {k : NodeKind} {i : Nat} {ns : List Note}
      (h : Course place (.ofBody (Grammar.body k)) i none ns) :
      Course place (.rule k) i none (Note.around k none ns)
  | rule_hit {k : NodeKind} {i j : Nat} {f : Forest} {ns : List Note}
      (h : Course place (.ofBody (Grammar.body k)) i (some (f, j)) ns) :
      Course place (.rule k) i (some ([.node k f], j)) (Note.around k (some f) ns)

/-- What is asked for, as a function of the place. -/
noncomputable def Goal.outcome (place : Nat → Token) : Goal → Nat → Option Outcome
  | .step d, i => ByPlace.step place d i
  | .steps _ ds, i => ByPlace.steps place ds i
  | .choice alternatives, i => ByPlace.choice place alternatives i
  | .tails tail, i => (ByPlace.tails place tail i).map some
  | .repetition head tail, i => ByPlace.repetition place head tail i
  | .rule k, i => ByPlace.rule place k i

namespace Course

variable {place : Nat → Token} {g : Goal} {i : Nat} {o : Outcome} {ns : List Note}

/-- **A course leads to what matching by place comes to.** -/
theorem outcome_eq (h : Course place g i o ns) : g.outcome place i = some o := by
  have hbody : ∀ {b : Body} {i : Nat} {o : Outcome},
      (Goal.ofBody b).outcome place i = some o → body place b i = some o := by
    intro b i o hb
    cases b with
    | choice alternatives => rwa [body_choice]
    | repetition head tail => rwa [body_repetition]
  induction h with
  | token_hit h => exact step_token_hit h
  | token_miss h => exact step_token_miss h
  | sub _ ih => exact (step_sub _).trans ih
  | optional_hit _ ih => exact step_optional_hit ih
  | optional_miss _ ih => exact step_optional_miss ih
  | steps_nil => exact ByPlace.steps_nil
  | steps_miss _ ih => exact steps_cons_miss ih
  | steps_behind _ _ ihd ih => exact steps_cons_miss_behind ihd ih
  | steps_hit _ _ ihd ih => exact steps_cons_hit ihd ih
  | choice_nil => exact ByPlace.choice_nil
  | choice_hit _ ih => exact choice_cons_hit ih
  | choice_next _ _ ih ihrest => exact (choice_cons_miss ih).trans ihrest
  | tails_stop _ ih => exact congrArg (Option.map some) (ByPlace.tails_stop ih)
  | tails_more _ _ ih ihrest =>
    obtain ⟨r, hr, hsome⟩ := Option.map_eq_some_iff.1 ihrest
    cases hsome
    exact congrArg (Option.map some) (ByPlace.tails_more ih hr)
  | repetition_miss _ ih => exact ByPlace.repetition_miss ih
  | repetition_hit _ _ ih ihrest =>
    obtain ⟨r, hr, hsome⟩ := Option.map_eq_some_iff.1 ihrest
    cases hsome
    exact ByPlace.repetition_hit ih hr
  | rule_miss _ ih => exact ByPlace.rule_miss (hbody ih)
  | rule_hit _ ih => exact ByPlace.rule_hit (hbody ih)

end Course

end ByPlace
end BoolQuery
