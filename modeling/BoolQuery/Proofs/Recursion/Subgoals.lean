/-
# What matching asks for on the way

Matching a goal in a state asks for other goals in other states. Between the two stand the tokens
that were matched and not given back.

| goal | asks for | behind |
| --- | --- | --- |
| a step | its production, its steps | nothing |
| steps in order | the first step | nothing |
| | the other steps | the tokens of the first |
| alternatives | the steps of the first | nothing |
| | the others | nothing, as the first has missed |
| tails | the steps of a tail, if the attempt is not spent | nothing |
| | more tails | the tokens of the tail |
| a repetition | its head | nothing |
| | its tails | the tokens of the head |
| a production | its right-hand side, if it may be opened | nothing |

Asking cannot go on for ever. Behind a parenthesis there is one group less to come, and without one
the productions are of lower and lower rank.
-/

import BoolQuery.Proofs.ByPlace.Mismatches

namespace BoolQuery
namespace RecognizerM

open Recognizer Grammar Reader
open ByPlace (Goal)

section

variable (rule : Kind → RecognizerM (Option Tree))

/-- `Subgoal rule g s ts h t`: matching `g` from `s` asks at once for `h` from `t`, behind the
tokens `ts`. -/
inductive Subgoal : Goal → State → List Token → Goal → State → Prop
  | sub {k : NodeKind} {s : State} : Subgoal (.step (Grammar.sub k)) s [] (.rule k) s
  | optional {ds : List Designator} {s : State} :
      Subgoal (.step (.optional ds)) s [] (.steps [] ds) s
  | first {done : Forest} {d : Designator} {ds : List Designator} {s : State} :
      Subgoal (.steps done (d :: ds)) s [] (.step d) s
  | behind {done f : Forest} {d : Designator} {ds : List Designator} {s t : State}
      (h : step rule d s = .ok (some f) t) :
      Subgoal (.steps done (d :: ds)) s (Tree.forestTokens f) (.steps (done ++ f) ds) t
  | alternative {ds : List Designator} {rest : List (List Designator)} {s : State} :
      Subgoal (.choice (ds :: rest)) s [] (.steps [] ds) s
  | otherwise {ds : List Designator} {rest : List (List Designator)} {s t : State}
      (h : sequence rule ds s = .ok none t) : Subgoal (.choice (ds :: rest)) s [] (.choice rest) t
  | tail {tail : List Designator} {s : State} (hs : s.spent = false) :
      Subgoal (.tails tail) s [] (.steps [] tail) s
  | again {tail : List Designator} {f : Forest} {s t : State} (hs : s.spent = false)
      (h : sequence rule tail s = .ok (some f) t) :
      Subgoal (.tails tail) s (Tree.forestTokens f) (.tails tail) t
  | head {head tail : List Designator} {s : State} :
      Subgoal (.repetition head tail) s [] (.steps [] head) s
  | behindHead {head tail : List Designator} {f : Forest} {s t : State}
      (h : sequence rule head s = .ok (some f) t) :
      Subgoal (.repetition head tail) s (Tree.forestTokens f) (.tails tail) t
  | body {k : NodeKind} {s : State} (h : openRule s = .ok true { s with depth := s.depth + 1 }) :
      Subgoal (.rule k) s [] (.ofBody (Grammar.body k)) (opened (.node k) s)

/-- `Reaches rule g s ts h t`: a chain of goals, each of which asks at once for the next one, leads
from `g` in `s` to `h` in `t`, and `ts` are the tokens in between. -/
inductive Reaches : Goal → State → List Token → Goal → State → Prop
  | here {g : Goal} {s : State} : Reaches g s [] g s
  | on {g h k : Goal} {s t u : State} {ts us : List Token} (hg : Subgoal rule g s ts h t)
      (hh : Reaches h t us k u) : Reaches g s (ts ++ us) k u

/-- While the production `k` is open from `s`, the production `k'` is asked for from `t`. -/
def Nests (k : NodeKind) (s : State) (k' : NodeKind) (t : State) : Prop :=
  openRule s = .ok true { s with depth := s.depth + 1 } ∧
    ∃ ts, Reaches rule (.ofBody (Grammar.body k)) (opened (.node k) s) ts (.rule k') t

end

section

variable {rule : Kind → RecognizerM (Option Tree)} {g h : Goal} {s t : State} {ts : List Token}

/-! ### The tokens in between -/

variable {β : Type} {v : Reader.View β}

/-- The tokens in front of a subgoal are taken off those to come. -/
theorem Subgoal.conserves (hr : ∀ k, Conserves v producedTokens (rule k))
    (hg : Subgoal rule g s ts h t) : v.prepend ts (v.see t.reader) = v.see s.reader := by
  induction hg with
  | sub | optional | first | alternative | tail | head | body => exact v.prepend_nil _
  | behind h => exact (step_conserves hr _ _ _ _ h).2
  | otherwise h | again _ h | behindHead h => exact (sequence_conserves hr _ _ _ _ h).2

/-- What was read on the way to a goal stands in front of what is to come there. -/
theorem Reaches.conserves (hr : ∀ k, Conserves v producedTokens (rule k))
    (hg : Reaches rule g s ts h t) : v.prepend ts (v.see t.reader) = v.see s.reader := by
  induction hg with
  | here => exact v.prepend_nil _
  | on hsub _ ih => rw [v.prepend_append, ih, hsub.conserves hr]

end

/-! ### What is still to be opened -/

mutual

/-- The greatest rank of a production that a step asks for before a group is opened. Behind a
parenthesis a rank counts for four less. -/
def rankOf : Designator → Nat
  | .rule (.node k) => rank k
  | .optional ds => rankOfAll ds
  | _ => 0

/-- The same of steps in order. -/
def rankOfAll : List Designator → Nat
  | [] => 0
  | d :: ds => max (rankOf d) (rankOfAll ds - 4 * opening d)

end

/-- The greatest rank of a production that a goal asks for before a group is opened. -/
def rankOfGoal : Goal → Nat
  | .step d => rankOf d
  | .steps _ ds => rankOfAll ds
  | .choice alternatives => (alternatives.map rankOfAll).foldr max 0
  | .tails tail => rankOfAll tail
  | .repetition head tail => max (rankOfAll head) (rankOfAll tail)
  | .rule k => rank k

/-- Productions ask for productions of lower rank, before a group is opened. -/
theorem rankOfGoal_ofBody_lt (k : NodeKind) : rankOfGoal (.ofBody (Grammar.body k)) < rank k := by
  cases k <;> decide

section

variable {rule : Kind → RecognizerM (Option Tree)} {g h : Goal} {s t : State} {ts : List Token}

/-- How many productions may still come to be open one inside another: four for every group to come,
and as many as the rank of the goal tells. -/
def room (g : Goal) (s : State) : Nat := 4 * groups s + rankOfGoal g

/-- Tokens taken off those to come leave as many groups less as there are parentheses among them. -/
theorem groups_of_conserves
    (hc : aheadView.prepend ts (aheadView.see t.reader) = aheadView.see s.reader) :
    groups s = openings (Token.wide ts) + groups t := by
  simp only [aheadView] at hc
  simp [groups, openings, ← hc]

/-- **A subgoal has no more room than the goal.** -/
theorem Subgoal.room_le (hr : ∀ k, Conserves aheadView producedTokens (rule k))
    (hg : Subgoal rule g s ts h t) : room h t ≤ room g s := by
  have hgroups := groups_of_conserves (hg.conserves hr)
  induction hg with
  | behind h =>
    have hle := opening_le h
    simp only [room, rankOfGoal, rankOfAll, matchedTokens, Option.getD_some] at *
    omega
  | @body k =>
    have hlt := rankOfGoal_ofBody_lt k
    simp only [room, rankOfGoal] at *
    omega
  | _ =>
    simp only [room, rankOfGoal, rankOf, rankOfAll, List.map_cons, List.foldr_cons] at *
    omega

/-- There is no more room at a goal than where the way to it began. -/
theorem Reaches.room_le (hr : ∀ k, Conserves aheadView producedTokens (rule k))
    (hg : Reaches rule g s ts h t) : room h t ≤ room g s := by
  induction hg with
  | here => exact Nat.le_refl _
  | on hsub _ ih => exact Nat.le_trans ih (hsub.room_le hr)

variable {k k' : NodeKind}

/-- **What a production asks for on the way has less room than the production.** -/
theorem Reaches.room_lt (hr : ∀ k, Conserves aheadView producedTokens (rule k))
    (hg : Reaches rule (.ofBody (Grammar.body k)) (opened (.node k) s) ts (.rule k') t) :
    room (.rule k') t < room (.rule k) s := by
  refine Nat.lt_of_le_of_lt (hg.room_le hr) ?_
  exact Nat.add_lt_add_left (rankOfGoal_ofBody_lt k) (4 * groups s)

/-- Productions do not nest without end. -/
theorem wellFounded_nests (hr : ∀ k, Conserves aheadView producedTokens (rule k)) :
    WellFounded fun inner outer : NodeKind × State =>
      Nests rule outer.1 outer.2 inner.1 inner.2 := by
  refine Subrelation.wf ?_
    (InvImage.wf (fun p : NodeKind × State => room (.rule p.1) p.2) Nat.lt_wfRel.wf)
  rintro ⟨k', t⟩ ⟨k, s⟩ ⟨-, ts, hg⟩
  exact hg.room_lt hr

/-- A production that is asked for while it is open has a parenthesis in front of it. -/
theorem Reaches.exists_parenOpen (hr : ∀ k, Conserves aheadView producedTokens (rule k))
    (hg : Reaches rule (.ofBody (Grammar.body k)) (opened (.node k) s) ts (.rule k) t) :
    ∃ p ∈ ts, p.kind = .token .parenOpen := by
  have hlt := hg.room_lt hr
  have hgroups := groups_of_conserves (hg.conserves hr)
  have hpos : 0 < openings (Token.wide ts) := by
    simp only [room, groups, opened] at *
    omega
  obtain ⟨p, hp, hkind⟩ := List.countP_pos_iff.1 hpos
  exact ⟨p, List.mem_of_mem_filter hp, of_decide_eq_true hkind⟩

end

end RecognizerM
end BoolQuery
