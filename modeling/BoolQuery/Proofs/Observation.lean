/-
# Recognizing is not disturbed by being observed

What an observer was told is only added to and never looked at. So an attempt takes the same steps
whatever was told before: it comes to the same answer, in the same state but for the events told
before, and tells the same events behind them. `Oblivious` says this of a computation, and it holds
of all that an attempt is made of.
-/

import BoolQuery.Proofs.Ways
import BoolQuery.Recognizer.Run

namespace BoolQuery

open Recognizer Grammar

/-- The same state, with other events told before. -/
def Recognizer.State.told (seen : Array Event) (s : State) : State :=
  { s with events := seen ++ s.events }

namespace RecognizerM

variable {α β : Type}

/-- The computation does the same, and tells the same, whatever was told before. -/
def Oblivious (act : RecognizerM α) : Prop :=
  ∀ seen s a s', act s = .ok a s' → act (s.told seen) = .ok a (s'.told seen)

namespace Oblivious

/-- To answer with a value looks at nothing. -/
theorem pure (a : α) : Oblivious (Pure.pure a : RecognizerM α) := by
  intro seen s b s' h
  cases h
  rfl

/-- One computation after the other is oblivious if both are, whatever the first one answers. -/
theorem bind {x : RecognizerM α} {f : α → RecognizerM β} (hx : Oblivious x)
    (hf : ∀ a, Oblivious (f a)) : Oblivious (x >>= f) := by
  intro seen s b s' h
  obtain ⟨a, t, ha, hb⟩ := bind_ok h
  rw [bind_run (hx seen s a t ha)]
  exact hf a seen t b s' hb

/-- A computation that looks at its state first, but not at what was told. -/
theorem get {f : State → RecognizerM α} (hf : ∀ s, Oblivious (f s))
    (htold : ∀ seen s, f (s.told seen) = f s) : Oblivious (MonadState.get >>= f) := by
  intro seen s a s' h
  rw [bind_run (get_run s)] at h
  rw [bind_run (get_run (s.told seen)), htold]
  exact hf s seen s a s' h

/-- A change of the state and an answer that do not depend on what was told. -/
theorem modifyGet {f : State → α × State}
    (hf : ∀ seen s, f (s.told seen) = ((f s).1, (f s).2.told seen)) :
    Oblivious (MonadStateOf.modifyGet f : RecognizerM α) := by
  intro seen s a s' h
  cases h
  show EStateM.Result.ok (f (s.told seen)).1 (f (s.told seen)).2 = _
  rw [hf]

/-- What ends as a fault has no answer that could be another one. -/
theorem throw (fault : Fault) : Oblivious (throw fault : RecognizerM α) := by
  intro seen s a s' h
  cases h

end Oblivious

/-! ### Single steps -/

/-- A new event goes behind those told before. -/
theorem emit_oblivious (e : Event) : Oblivious (emit e) :=
  .modifyGet fun seen s => by simp [State.told, Array.push_append]

/-- Reading a token changes the reader only. -/
theorem nextToken_oblivious : Oblivious nextToken := .modifyGet fun _ _ => rfl

/-- Giving tokens back changes the reader only. -/
theorem giveBack_oblivious (ts : List Token) : Oblivious (giveBack ts) := .modifyGet fun _ _ => rfl

/-- Which mismatch is the furthest is told by places and not by events. -/
theorem noteMismatch_oblivious (t : Token) : Oblivious (noteMismatch t) := .modifyGet fun _ _ => rfl

/-- Closing a production changes the depth only. -/
theorem closeRule_oblivious : Oblivious closeRule := .modifyGet fun _ _ => rfl

/-- Whether a production is opened is up to the limit, the depth and what is spent. -/
theorem openRule_oblivious : Oblivious openRule := by
  refine .modifyGet fun seen s => ?_
  by_cases hspent : s.spent = true
  · simp [State.told, hspent]
  · by_cases hfull : (s.limit.any fun n => n ≤ s.depth) = true
    · simp [State.told, hspent, hfull]
    · simp [State.told, hspent, hfull]

/-- A token is asked for by single steps that are oblivious. -/
theorem terminal_oblivious (kind : Kind) : Oblivious (terminal kind) := by
  cases kind with
  | token k =>
    rw [terminal]
    refine nextToken_oblivious.bind fun t => ?_
    split
    · exact .pure _
    · exact (noteMismatch_oblivious t).bind fun _ => (giveBack_oblivious [t]).bind fun _ => .pure _
  | node k => exact .throw _
  | endMark => exact .throw _

/-- Trees are given back by telling of it first, without a look at what was told. -/
theorem unread_oblivious (f : Forest) : Oblivious (unread f) := by
  unfold unread
  split
  · exact .pure _
  · exact (emit_oblivious _).bind fun _ => giveBack_oblivious _

/-! ### Productions and attempts -/

/-- All ways of matching are made of oblivious steps. -/
theorem oblivious_compositional : Compositional fun {α} => Oblivious (α := α) where
  pure := .pure
  bind := .bind
  terminal := terminal_oblivious
  unread := unread_oblivious
  spent hx := by
    refine .get (fun s => ?_) fun _ _ => rfl
    split
    · exact .pure _
    · exact hx
  room hx := .get (fun _ => hx _) fun _ _ => rfl
  endless := .throw _

/-- Productions tell when they begin and end, and ask nobody. -/
theorem ruleWithin_oblivious (bound : Nat) (kind : Kind) : Oblivious (ruleWithin bound kind) := by
  induction bound generalizing kind with
  | zero => exact .throw _
  | succ bound ih =>
    unfold ruleWithin
    refine openRule_oblivious.bind fun opened => ?_
    split
    · refine (emit_oblivious _).bind fun _ => ?_
      cases kind with
      | node k =>
        have hbody := oblivious_compositional.body ih (Grammar.body k)
        refine hbody.bind fun f => closeRule_oblivious.bind fun _ => ?_
        cases f with
        | some children => exact (emit_oblivious _).bind fun _ => .pure _
        | none => exact (emit_oblivious _).bind fun _ => .pure _
      | token k => exact .throw _
      | endMark => exact .throw _
    · exact .pure _

/-- The bound on their nesting is read off the tokens to come. -/
theorem rule_oblivious (kind : Kind) : Oblivious (rule kind) := by
  unfold rule
  exact .get (fun s => ruleWithin_oblivious _ kind) fun _ _ => rfl

/-- The answer is made of what `Query` came to, the furthest mismatch and the next token. -/
theorem parse_oblivious : Oblivious parse := by
  unfold parse
  refine (rule_oblivious _).bind fun root? => .get (fun s => ?_) fun _ _ => rfl
  by_cases hspent : s.spent = true
  · rw [if_pos hspent]
    exact .pure _
  rw [if_neg hspent]
  cases root? with
  | some root =>
    refine nextToken_oblivious.bind fun t => ?_
    split <;> exact .pure _
  | none =>
    cases s.furthest with
    | some t => exact .pure _
    | none => exact nextToken_oblivious.bind fun t => .pure _

end RecognizerM

/-- **An observer does not disturb the attempt.** Whatever was told before, an attempt on a line
comes to the same answer, and tells the same events behind what was told. -/
theorem finish_told (seen : Array Event) (limit : Option Nat) (line : String) :
    let s := ((State.start line limit).told seen).finish
    s.1 = recognize limit line ∧ s.2.events.toList = seen.toList ++ (recognizeTraced limit line).2 := by
  intro s
  have hparse := RecognizerM.parse_oblivious seen _ _ _ (State.start line limit).parse_eq_finish
  have htold := ((State.start line limit).told seen).parse_eq_finish
  rw [hparse] at htold
  injection htold with hanswer hstate
  refine ⟨hanswer.symm, ?_⟩
  show s.2.events.toList = _
  rw [← hstate]
  exact Array.toList_append

end BoolQuery
