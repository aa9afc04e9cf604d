/-
# Matching by place

The same grammar, matched over tokens that stand at fixed places: a match is at a place and ends at
a place. Nothing is read and nothing is given back, so there is no state, and to try again is to
match at the same place.

| asked for | matches at `i` |
| --- | --- |
| a token | if the token at `i` is of the kind, up to `i + 1` |
| a production | as its body does, as one node |
| steps in order | each where the one before it ended |
| steps or nothing | as the steps do, else nothing |
| alternatives | as the first one does that matches |
| a repetition | its head, and behind it as many tails as match |

The answer is a miss or trees and the place behind them. To answer one question others are asked, of
which `reply` says how, and a question comes to what it comes to when enough of them are allowed.
There is no answer where matching would not end, or a token or production is asked for by a kind of
the wrong sort.
-/

import BoolQuery.Grammar
import BoolQuery.Tree

namespace BoolQuery
namespace ByPlace

open Grammar

/-- A miss, or the trees that matched and the place behind them. -/
abbrev Outcome := Option (Forest × Nat)

/-- What can be asked for at a place. -/
inductive Question
  | step (d : Designator)
  | steps (ds : List Designator)
  | choice (alternatives : List (List Designator))
  | tails (tail : List Designator)
  | repetition (head tail : List Designator)
  | body (b : Body)
  | rule (k : NodeKind)

section

variable (place : Nat → Token)

/-- What a question comes to, where `ask` tells what all others come to. -/
def reply (ask : Question → Nat → Option Outcome) : Question → Nat → Option Outcome
  | .step (.terminal (.token k)), i =>
    some (if (place i).kind = .token k then some ([.leaf (place i)], i + 1) else none)
  | .step (.rule (.node k)), i => ask (.rule k) i
  | .step (.optional ds), i => do
    match ← ask (.steps ds) i with
    | some found => return some found
    | none => return some ([], i)
  | .step _, _ => none
  | .steps [], i => some (some ([], i))
  | .steps (d :: ds), i => do
    match ← ask (.step d) i with
    | none => return none
    | some (f, j) => return (← ask (.steps ds) j).map fun (g, l) => (f ++ g, l)
  | .choice [], _ => some none
  | .choice (ds :: rest), i => do
    match ← ask (.steps ds) i with
    | some found => return some found
    | none => ask (.choice rest) i
  | .tails tail, i => do
    match ← ask (.steps tail) i with
    | none => return some ([], i)
    | some (f, j) => return (← ask (.tails tail) j).map fun (g, l) => (f ++ g, l)
  | .repetition head tail, i => do
    match ← ask (.steps head) i with
    | none => return none
    | some (f, j) => return (← ask (.tails tail) j).map fun (g, l) => (f ++ g, l)
  | .body (.choice alternatives), i => ask (.choice alternatives) i
  | .body (.repetition head tail), i => ask (.repetition head tail) i
  | .rule k, i => return (← ask (.body (Grammar.body k)) i).map fun (f, j) => ([.node k f], j)

/-- What a question comes to if at most `n` questions may be asked one because of another. -/
def answerWithin : Nat → Question → Nat → Option Outcome
  | 0 => fun _ _ => none
  | n + 1 => reply place (answerWithin n)

open Classical in
/-- What a question comes to. It comes to nothing if no number of questions is enough. -/
noncomputable def answer (q : Question) (i : Nat) : Option Outcome :=
  if h : ∃ o n, answerWithin place n q i = some o then some h.choose else none

/-- Matches one step. -/
noncomputable def step (d : Designator) (i : Nat) : Option Outcome := answer place (.step d) i

/-- Matches steps in order. -/
noncomputable def steps (ds : List Designator) (i : Nat) : Option Outcome :=
  answer place (.steps ds) i

/-- Matches the first alternative that matches. -/
noncomputable def choice (alternatives : List (List Designator)) (i : Nat) : Option Outcome :=
  answer place (.choice alternatives) i

/-- Matches as many tails as match, which may be none, and so there is no miss. -/
noncomputable def tails (tail : List Designator) (i : Nat) : Option (Forest × Nat) :=
  (answer place (.tails tail) i).bind id

/-- Matches the head and as many tails as match. -/
noncomputable def repetition (head tail : List Designator) (i : Nat) : Option Outcome :=
  answer place (.repetition head tail) i

/-- Matches the body of a production. -/
noncomputable def body (b : Body) (i : Nat) : Option Outcome := answer place (.body b) i

/-- Matches a production. -/
noncomputable def rule (k : NodeKind) (i : Nat) : Option Outcome := answer place (.rule k) i

end

/-! ### More and more questions -/

/-- Where more is allowed an answer stays, and `x` is the answer that comes in the end. -/
structure Settles {α : Type} (f : Nat → Option α) (x : Option α) : Prop where
  stays : ∀ m n a, m ≤ n → f m = some a → f n = some a
  reached : ∀ a, x = some a ↔ ∃ n, f n = some a

namespace Settles

variable {α β : Type} {f : Nat → Option α} {x y : Option α}

/-- What does not depend on how much is allowed settles at once. -/
theorem const (x : Option α) : Settles (fun _ => x) x :=
  ⟨fun _ _ _ _ h => h, fun _ => ⟨fun h => ⟨0, h⟩, fun ⟨_, h⟩ => h⟩⟩

/-- One answer at first, and another one from then on. -/
theorem two (h : ∀ a, x = some a → y = some a) : Settles (fun n => if n = 0 then x else y) y where
  stays m n a hmn hm := by
    cases n with
    | zero =>
      obtain rfl := Nat.le_zero.1 hmn
      exact hm
    | succ n =>
      cases m with
      | zero => exact h a hm
      | succ m => exact hm
  reached a := by
    refine ⟨fun ha => ⟨1, ha⟩, ?_⟩
    rintro ⟨n, hn⟩
    cases n with
    | zero => exact h a hn
    | succ n => exact hn

/-- There is one answer to settle on. -/
theorem unique (hx : Settles f x) (hy : Settles f y) : x = y :=
  Option.ext fun a => (hx.reached a).trans (hy.reached a).symm

/-- It is of no matter how much is allowed at first. -/
theorem succ (h : Settles f x) : Settles (fun n => f (n + 1)) x where
  stays m n a hmn := h.stays (m + 1) (n + 1) a (Nat.succ_le_succ hmn)
  reached a := by
    rw [h.reached a]
    constructor
    · rintro ⟨n, hn⟩
      exact ⟨n, h.stays n (n + 1) a (Nat.le_succ n) hn⟩
    · rintro ⟨n, hn⟩
      exact ⟨n + 1, hn⟩

/-- What is asked for because of an answer. -/
theorem bind (h : Settles f x) {g : α → Nat → Option β} {y : α → Option β}
    (hg : ∀ a, Settles (g a) (y a)) : Settles (fun n => (f n).bind fun a => g a n) (x.bind y) where
  stays m n b hmn hb := by
    obtain ⟨a, ha, hb⟩ := Option.bind_eq_some_iff.1 hb
    rw [h.stays m n a hmn ha]
    exact (hg a).stays m n b hmn hb
  reached b := by
    constructor
    · intro hb
      obtain ⟨a, ha, hb⟩ := Option.bind_eq_some_iff.1 hb
      obtain ⟨m, hm⟩ := (h.reached a).1 ha
      obtain ⟨n, hn⟩ := ((hg a).reached b).1 hb
      refine ⟨max m n, ?_⟩
      rw [h.stays m _ a (Nat.le_max_left m n) hm]
      exact (hg a).stays n _ b (Nat.le_max_right m n) hn
    · rintro ⟨n, hn⟩
      obtain ⟨a, ha, hb⟩ := Option.bind_eq_some_iff.1 hn
      rw [(h.reached a).2 ⟨n, ha⟩]
      exact ((hg a).reached b).2 ⟨n, hb⟩

end Settles

section

variable {place : Nat → Token} {ask ask' : Question → Nat → Option Outcome}

/-- A reply settles where the answers that it is made of do. -/
theorem reply_settles {asks : Nat → Question → Nat → Option Outcome}
    (h : ∀ q i, Settles (fun n => asks n q i) (ask q i)) (q : Question) (i : Nat) :
    Settles (fun n => reply place (asks n) q i) (reply place ask q i) := by
  -- Behind a first match comes one more question, and behind a miss or a second match none.
  have hbehind : ∀ (o : Outcome) (missed : Outcome) (q : Question),
      Settles
        (fun n => match o with
          | none => some missed
          | some (f, j) => (asks n q j).bind fun o => some (o.map fun (g, l) => (f ++ g, l)))
        (match o with
          | none => some missed
          | some (f, j) => (ask q j).bind fun o => some (o.map fun (g, l) => (f ++ g, l))) := by
    intro o missed q
    cases o with
    | none => exact .const _
    | some found => exact (h q found.2).bind fun o => .const _
  cases q with
  | step d =>
    cases d with
    | terminal kind => cases kind <;> exact .const _
    | rule kind =>
      cases kind with
      | node k => exact h (.rule k) i
      | token k => exact .const _
      | endMark => exact .const _
    | optional ds =>
      refine (h (.steps ds) i).bind fun o => ?_
      cases o <;> exact .const _
  | steps ds =>
    cases ds with
    | nil => exact .const _
    | cons d ds => exact (h (.step d) i).bind fun o => hbehind o none (.steps ds)
  | choice alternatives =>
    cases alternatives with
    | nil => exact .const _
    | cons ds rest =>
      refine (h (.steps ds) i).bind fun o => ?_
      cases o with
      | some found => exact .const _
      | none => exact h (.choice rest) i
  | tails tail => exact (h (.steps tail) i).bind fun o => hbehind o (some ([], i)) (.tails tail)
  | repetition head tail => exact (h (.steps head) i).bind fun o => hbehind o none (.tails tail)
  | body b =>
    cases b with
    | choice alternatives => exact h (.choice alternatives) i
    | repetition head tail => exact h (.repetition head tail) i
  | rule k => exact (h (.body (Grammar.body k)) i).bind fun o => .const _

/-- Where more is answered more is replied. -/
theorem reply_mono (h : ∀ q i o, ask q i = some o → ask' q i = some o) {q : Question} {i : Nat}
    {o : Outcome} (ho : reply place ask q i = some o) : reply place ask' q i = some o := by
  have hsettles : Settles
      (fun n => reply place (fun q i => if n = 0 then ask q i else ask' q i) q i)
      (reply place ask' q i) :=
    reply_settles (fun q i => .two (h q i)) q i
  exact hsettles.stays 0 1 o (Nat.zero_le 1) ho

/-- An answer stays where more questions are allowed. -/
theorem answerWithin_stays {m n : Nat} (hmn : m ≤ n) {q : Question} {i : Nat} {o : Outcome}
    (h : answerWithin place m q i = some o) : answerWithin place n q i = some o := by
  induction m generalizing n q i o with
  | zero => cases h
  | succ m ih =>
    cases n with
    | zero => cases hmn
    | succ n => exact reply_mono (fun _ _ _ => ih (Nat.le_of_succ_le_succ hmn)) h

/-- A question settles on what it comes to. -/
theorem answer_settles (q : Question) (i : Nat) :
    Settles (fun n => answerWithin place n q i) (answer place q i) where
  stays _ _ _ hmn h := answerWithin_stays hmn h
  reached o := by
    unfold answer
    constructor
    · intro h
      split at h
      · rename_i hsome
        cases h
        exact hsome.choose_spec
      · cases h
    · rintro ⟨n, hn⟩
      have hsome : ∃ o n, answerWithin place n q i = some o := ⟨o, n, hn⟩
      obtain ⟨m, hm⟩ := hsome.choose_spec
      rw [dif_pos hsome, ← answerWithin_stays (Nat.le_max_left m n) hm,
        answerWithin_stays (Nat.le_max_right m n) hn]

/-- **A question comes to the reply** that is made of what other questions come to. -/
theorem answer_eq (q : Question) (i : Nat) :
    answer place q i = reply place (answer place) q i :=
  (answer_settles q i).succ.unique (reply_settles answer_settles q i)

end

section

variable {place : Nat → Token} {i j l : Nat} {f g : Forest}

/-! ### One step -/

/-- A token is asked for by a look at the place. -/
theorem step_token (k : TokenKind) :
    step place (.terminal (.token k)) i =
      some (if (place i).kind = .token k then some ([.leaf (place i)], i + 1) else none) :=
  answer_eq _ _

/-- A token of the kind matches as a leaf, up to the next place. -/
theorem step_token_hit {k : TokenKind} (h : (place i).kind = .token k) :
    step place (tok k) i = some (some ([.leaf (place i)], i + 1)) := by
  rw [step_token, if_pos h]

/-- Any other token is a miss. -/
theorem step_token_miss {k : TokenKind} (h : (place i).kind ≠ .token k) :
    step place (tok k) i = some none := by
  rw [step_token, if_neg h]

/-- A production is asked for by its kind. -/
theorem step_sub (k : NodeKind) : step place (sub k) i = rule place k i := answer_eq _ _

/-- Steps that may be missing come to what they come to, or else to nothing. -/
theorem step_optional (ds : List Designator) :
    step place (.optional ds) i = do
      match ← steps place ds i with
      | some found => return some found
      | none => return some ([], i) :=
  answer_eq _ _

/-- Steps that may be missing match as they do where they match. -/
theorem step_optional_hit {ds : List Designator} (h : steps place ds i = some (some (f, j))) :
    step place (.optional ds) i = some (some (f, j)) := by
  rw [step_optional, h]
  rfl

/-- Where they miss nothing is matched. -/
theorem step_optional_miss {ds : List Designator} (h : steps place ds i = some none) :
    step place (.optional ds) i = some (some ([], i)) := by
  rw [step_optional, h]
  rfl

/-! ### Steps in order -/

/-- No steps match nothing. -/
theorem steps_nil : steps place [] i = some (some ([], i)) := answer_eq _ _

/-- The other steps are matched where the first one ended. -/
theorem steps_cons (d : Designator) (ds : List Designator) :
    steps place (d :: ds) i = do
      match ← step place d i with
      | none => return none
      | some (f, j) => return (← steps place ds j).map fun (g, l) => (f ++ g, l) :=
  answer_eq _ _

/-- Steps that match one behind the other match as a whole. -/
theorem steps_cons_hit {d : Designator} {ds : List Designator}
    (hd : step place d i = some (some (f, j))) (hds : steps place ds j = some (some (g, l))) :
    steps place (d :: ds) i = some (some (f ++ g, l)) := by
  rw [steps_cons, hd]
  show (steps place ds j).bind _ = _
  rw [hds]
  rfl

/-- Where the first step misses all of them miss. -/
theorem steps_cons_miss {d : Designator} {ds : List Designator}
    (hd : step place d i = some none) : steps place (d :: ds) i = some none := by
  rw [steps_cons, hd]
  rfl

/-- Where the steps behind the first one miss all of them miss. -/
theorem steps_cons_miss_behind {d : Designator} {ds : List Designator}
    (hd : step place d i = some (some (f, j))) (hds : steps place ds j = some none) :
    steps place (d :: ds) i = some none := by
  rw [steps_cons, hd]
  show (steps place ds j).bind _ = _
  rw [hds]
  rfl

/-- A single step matches as a sequence too. -/
theorem steps_single_hit {d : Designator} (hd : step place d i = some (some (f, j))) :
    steps place [d] i = some (some (f, j)) := by
  rw [steps_cons_hit hd steps_nil, List.append_nil]

/-- Steps that begin with a token take the token at the place where they match. -/
theorem first_of_steps {k : TokenKind} {ds : List Designator}
    (h : steps place (tok k :: ds) i = some (some (f, j))) :
    (place i).kind = .token k ∧ ∃ g, f = .leaf (place i) :: g := by
  by_cases hk : (place i).kind = .token k
  · refine ⟨hk, ?_⟩
    rw [steps_cons, step_token_hit hk] at h
    change (steps place ds (i + 1)).bind _ = _ at h
    obtain ⟨o, ho, h⟩ := Option.bind_eq_some_iff.1 h
    cases o with
    | none => cases h
    | some found =>
      cases h
      exact ⟨found.1, rfl⟩
  · rw [steps_cons_miss (step_token_miss hk)] at h
    cases h

/-! ### Alternatives and repetitions -/

/-- No alternatives match nowhere. -/
theorem choice_nil : choice place [] i = some none := answer_eq _ _

/-- The first alternative goes before the others. -/
theorem choice_cons (ds : List Designator) (rest : List (List Designator)) :
    choice place (ds :: rest) i = (do
      match ← steps place ds i with
      | some found => return some found
      | none => choice place rest i) :=
  answer_eq _ _

/-- The first alternative that matches is taken. -/
theorem choice_cons_hit {ds : List Designator} {rest : List (List Designator)}
    (h : steps place ds i = some (some (f, j))) :
    choice place (ds :: rest) i = some (some (f, j)) := by
  rw [choice_cons, h]
  rfl

/-- An alternative that misses leaves the choice to the others. -/
theorem choice_cons_miss {ds : List Designator} {rest : List (List Designator)}
    (h : steps place ds i = some none) : choice place (ds :: rest) i = choice place rest i := by
  rw [choice_cons, h]
  rfl

/-- Tails are never missed: there may be none of them. -/
theorem answerWithin_tails_ne (tail : List Designator) (n i : Nat) :
    answerWithin place n (.tails tail) i ≠ some none := by
  induction n generalizing i with
  | zero => exact nofun
  | succ n ih =>
    intro h
    obtain ⟨o, -, h⟩ := Option.bind_eq_some_iff.1 h
    cases o with
    | none => cases h
    | some found =>
      obtain ⟨o, ho, h⟩ := Option.bind_eq_some_iff.1 h
      cases o with
      | none => exact ih found.2 ho
      | some more => cases h

/-- What tails come to is never a miss. -/
theorem answer_tails (tail : List Designator) (i : Nat) :
    answer place (.tails tail) i = (tails place tail i).map some := by
  unfold tails
  cases h : answer place (.tails tail) i with
  | none => rfl
  | some o =>
    cases o with
    | none =>
      obtain ⟨n, hn⟩ := ((answer_settles _ _).reached _).1 h
      exact absurd hn (answerWithin_tails_ne tail n i)
    | some found => rfl

/-- A repetition comes to its head, and behind it to its tails. -/
theorem repetition_eq (head tail : List Designator) :
    repetition place head tail i = do
      match ← steps place head i with
      | none => return none
      | some (f, j) =>
        let (g, l) ← tails place tail j
        return some (f ++ g, l) := by
  rw [repetition, answer_eq]
  show (steps place head i).bind _ = (steps place head i).bind _
  congr 1
  funext o
  cases o with
  | none => rfl
  | some found =>
    show (answer place (.tails tail) found.2).bind _ = (tails place tail found.2).bind _
    rw [answer_tails]
    cases tails place tail found.2 <;> rfl

/-- Tails come to one of them with the others behind it, or to nothing. -/
theorem tails_eq (tail : List Designator) :
    tails place tail i = do
      match ← steps place tail i with
      | none => return ([], i)
      | some (f, j) =>
        let (g, l) ← tails place tail j
        return (f ++ g, l) := by
  refine (Option.map_inj_right fun _ _ => Option.some.inj).1 ?_
  rw [← answer_tails, answer_eq]
  show (steps place tail i).bind _ = ((steps place tail i).bind _).map some
  cases steps place tail i with
  | none => rfl
  | some o =>
    cases o with
    | none => rfl
    | some found =>
      show (answer place (.tails tail) found.2).bind _ =
        ((tails place tail found.2).bind _).map some
      rw [answer_tails]
      cases tails place tail found.2 <;> rfl

/-- Where the tail misses there are no more tails. -/
theorem tails_stop {tail : List Designator} (h : steps place tail i = some none) :
    tails place tail i = some ([], i) := by
  rw [tails_eq, h]
  rfl

/-- Where the tail matches the others go on behind it. -/
theorem tails_more {tail : List Designator} (h : steps place tail i = some (some (f, j)))
    (hg : tails place tail j = some (g, l)) : tails place tail i = some (f ++ g, l) := by
  rw [tails_eq, h]
  show (tails place tail j).bind _ = _
  rw [hg]
  rfl

/-- Where the head misses the repetition does. -/
theorem repetition_miss {head tail : List Designator} (h : steps place head i = some none) :
    repetition place head tail i = some none := by
  rw [repetition_eq, h]
  rfl

/-- Behind the head of a repetition come its tails. -/
theorem repetition_hit {head tail : List Designator}
    (h : steps place head i = some (some (f, j))) (hg : tails place tail j = some (g, l)) :
    repetition place head tail i = some (some (f ++ g, l)) := by
  rw [repetition_eq, h]
  show (tails place tail j).bind _ = _
  rw [hg]
  rfl

/-! ### Productions -/

/-- Alternatives in a right-hand side are a choice. -/
theorem body_choice {alternatives : List (List Designator)} :
    body place (.choice alternatives) i = choice place alternatives i :=
  answer_eq _ _

/-- A repetition in a right-hand side is one. -/
theorem body_repetition {head tail : List Designator} :
    body place (.repetition head tail) i = repetition place head tail i :=
  answer_eq _ _

/-- A production comes to its right-hand side as one node. -/
theorem rule_eq (k : NodeKind) :
    rule place k i = do
      return (← body place (Grammar.body k) i).map fun (f, j) => ([.node k f], j) :=
  answer_eq _ _

/-- Where the right-hand side matches the production does, as its node. -/
theorem rule_hit {k : NodeKind} (h : body place (Grammar.body k) i = some (some (f, j))) :
    rule place k i = some (some ([.node k f], j)) := by
  rw [rule_eq, h]
  rfl

/-- Where the right-hand side misses the production does. -/
theorem rule_miss {k : NodeKind} (h : body place (Grammar.body k) i = some none) :
    rule place k i = some none := by
  rw [rule_eq, h]
  rfl

end

end ByPlace
end BoolQuery
