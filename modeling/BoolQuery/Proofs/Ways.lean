/-
# Ways of matching

Right-hand sides of productions are matched by asking for tokens and for productions, and by giving
back what was read in vain. `Means` is what that is done with, and the ways of matching are put
together from it as those of an attempt are (`RecognizerM.body_eq`):

| from the means | put together |
| --- | --- |
| to ask for a token, for a production, for what may be missing | one step |
| to give trees back | steps in order |
| to break off | tails, as often as they match |

What two computations have in common, by a relation that is kept when they are put together, the
ways of matching by some means have in common with those by other means as soon as the means have
it. That is proved once, for all relations (`Compatible.body`). What holds of single computations is
the case in which both are the same (`Compositional.body`).
-/

import BoolQuery.Recognizer.Runs

namespace BoolQuery

open Recognizer Grammar

/-- What right-hand sides are matched with, in computations that break off with `ε`. -/
structure Means (ε : Type) where
  /-- Asks for a token of a kind. -/
  terminal : Kind → EStateM ε State (Option Token)
  /-- Asks for a production. -/
  rule : Kind → EStateM ε State (Option Tree)
  /-- Gives back all tokens of a forest. -/
  unread : Forest → EStateM ε State Unit
  /-- Takes a miss of what may be missing for nothing. -/
  optional : EStateM ε State (Option Forest) → EStateM ε State (Option Forest)
  /-- What is answered in the place of a repetition that would go on for ever. -/
  endless : ε

namespace Means

variable {ε : Type} (M : Means ε)

mutual

/-- Matches one step. -/
def step : Designator → EStateM ε State (Option Forest)
  | .terminal kind => return (← M.terminal kind).map fun t => [.leaf t]
  | .rule kind => return (← M.rule kind).map fun t => [t]
  | .optional ds => M.optional (stepsFrom [] ds)

/-- Matches the steps in order after the trees in `done`; on a miss all is given back. -/
def stepsFrom (done : Forest) : List Designator → EStateM ε State (Option Forest)
  | [] => return some done
  | d :: ds => do
    match ← step d with
    | some more => stepsFrom (done ++ more) ds
    | none =>
      M.unread done
      return none

end

/-- Matches all steps in order. -/
def sequence (ds : List Designator) : EStateM ε State (Option Forest) := M.stepsFrom [] ds

/-- The first alternative that matches. -/
def choice : List (List Designator) → EStateM ε State (Option Forest)
  | [] => return none
  | ds :: rest => do
    match ← M.sequence ds with
    | some f => return some f
    | none => choice rest

/-- Matches the tail as often as it matches, less than `bound` times, and stops when the attempt is
spent. -/
def tails (tail : List Designator) : Nat → EStateM ε State Forest
  | 0 => throw M.endless
  | bound + 1 => do
    if (← get).spent then
      return []
    else
      match ← M.sequence tail with
      | some more => return more ++ (← tails tail bound)
      | none => return []

/-- The head once, and then the tail as often as it matches. -/
def repetition (head tail : List Designator) : EStateM ε State (Option Forest) := do
  match ← M.sequence head with
  | some first => return some (first ++ (← M.tails tail ((← get).reader.size + 2)))
  | none => return none

/-- Matches the right-hand side of a production. -/
def body : Body → EStateM ε State (Option Forest)
  | .choice alternatives => M.choice alternatives
  | .repetition head tail => M.repetition head tail

end Means

/-! ### The means of an attempt -/

namespace RecognizerM

variable (rule : Kind → RecognizerM (Option Tree))

/-- What an attempt matches with. -/
def means : Means Fault where
  terminal := terminal
  rule := rule
  unread := unread
  optional x := return some ((← x).getD [])
  endless := .endless

/-- Steps in order are matched by the means, with the same trees in front. -/
theorem stepsFrom_eq : stepsFrom rule = (means rule).stepsFrom := by
  -- Behind the names both are the same recursion over steps.
  delta stepsFrom Means.stepsFrom
  rfl

/-- All steps in order are matched by the means. -/
theorem sequence_eq (ds : List Designator) : sequence rule ds = (means rule).sequence ds := by
  rw [sequence, Means.sequence, stepsFrom_eq]

/-- Alternatives are matched by the means. -/
theorem choice_eq (alternatives : List (List Designator)) :
    choice rule alternatives = (means rule).choice alternatives := by
  induction alternatives with
  | nil => rfl
  | cons ds rest ih =>
    rw [choice, sequence_eq, ih]
    rfl

/-- Tails are matched by the means, up to the same bound. -/
theorem tails_eq (tail : List Designator) (bound : Nat) :
    tails rule tail bound = (means rule).tails tail bound := by
  induction bound with
  | zero => rfl
  | succ bound ih =>
    rw [tails, sequence_eq, ih]
    rfl

/-- **An attempt matches by its means.** -/
theorem body_eq (b : Body) : body rule b = (means rule).body b := by
  cases b with
  | choice alternatives => exact choice_eq rule alternatives
  | repetition head tail =>
    simp only [body, repetition, sequence_eq, tails_eq]
    rfl

end RecognizerM

/-! ### Relations of computations -/

/-- Types of answers: with each relation of forests comes one of answers. -/
class Answer (α : Type) where
  /-- The answers are related as the forests in them are. -/
  rel (like : Forest → Forest → Prop) : α → α → Prop
  /-- Where forests are related to themselves only, answers are. -/
  rel_eq {a b : α} : rel Eq a b ↔ a = b

/-- To be done is all there is to answer. -/
instance : Answer Unit := ⟨fun _ _ _ => True, by simp⟩

/-- Tokens are related as leaves. -/
instance : Answer Token := ⟨fun like t u => like [.leaf t] [.leaf u], by simp⟩

/-- Trees are related as forests of one tree. -/
instance : Answer Tree := ⟨fun like t u => like [t] [u], by simp⟩

/-- Forests are related as they are. -/
instance : Answer Forest := ⟨fun like => like, .rfl⟩

/-- Either both have an answer or neither has. -/
instance {α : Type} [Answer α] : Answer (Option α) where
  rel like := Option.Rel (Answer.rel like)
  rel_eq {a b} := by
    cases a <;> cases b <;> simp [Answer.rel_eq]

/-- A relation of computations that is kept when they are put together, and that relates some means
to others. Related forests are answered, and the bounds on how often a tail may match fit together
until one of them is used up. -/
structure Compatible {ε ε' : Type} (M : Means ε) (N : Means ε') (like : Forest → Forest → Prop)
    (fit : Nat → Nat → Prop)
    (R : ∀ {α : Type} [Answer α], EStateM ε State α → EStateM ε' State α → Prop) : Prop where
  nil : like [] []
  append : ∀ {f g f' g'}, like f g → like f' g' → like (f ++ f') (g ++ g')
  pure : ∀ {α : Type} [Answer α] {a b : α}, Answer.rel like a b → R (Pure.pure a) (Pure.pure b)
  bind : ∀ {α β : Type} [Answer α] [Answer β] {x : EStateM ε State α} {y : EStateM ε' State α}
    {f : α → EStateM ε State β} {g : α → EStateM ε' State β}, R x y →
    (∀ a b, Answer.rel like a b → R (f a) (g b)) → R (x >>= f) (y >>= g)
  terminal : ∀ kind, R (M.terminal kind) (N.terminal kind)
  rule : ∀ kind, R (M.rule kind) (N.rule kind)
  unread : ∀ {f g}, like f g → R (M.unread f) (N.unread g)
  optional : ∀ {x y}, R x y → R (M.optional x) (N.optional y)
  spent : ∀ {x : EStateM ε State Forest} {y : EStateM ε' State Forest}, R x y →
    R (do if (← get).spent then return [] else x) (do if (← get).spent then return [] else y)
  room : ∀ {x : Nat → EStateM ε State (Option Forest)} {y : Nat → EStateM ε' State (Option Forest)},
    (∀ m n, fit m n → R (x m) (y n)) →
    R (do x ((← get).reader.size + 2)) (do y ((← get).reader.size + 2))
  lower : ∀ {m n}, fit (m + 1) (n + 1) → fit m n
  exhausted : ∀ {m n} tail, fit m n → m = 0 ∨ n = 0 → R (M.tails tail m) (N.tails tail n)

namespace Compatible

variable {ε ε' : Type} {M : Means ε} {N : Means ε'} {like : Forest → Forest → Prop}
  {fit : Nat → Nat → Prop}
  {R : ∀ {α : Type} [Answer α], EStateM ε State α → EStateM ε' State α → Prop}

mutual

/-- Single steps are related. -/
theorem step (h : Compatible M N like fit R) : ∀ d, R (M.step d) (N.step d)
  | .terminal kind => by
    rw [Means.step, Means.step]
    refine h.bind (h.terminal kind) fun t u htu => h.pure ?_
    cases htu with
    | none => exact .none
    | some htu => exact .some htu
  | .rule kind => by
    rw [Means.step, Means.step]
    refine h.bind (h.rule kind) fun t u htu => h.pure ?_
    cases htu with
    | none => exact .none
    | some htu => exact .some htu
  | .optional ds => by
    rw [Means.step, Means.step]
    exact h.optional (stepsFrom h ds h.nil)

/-- Steps in order are related behind trees that are. -/
theorem stepsFrom (h : Compatible M N like fit R) :
    ∀ ds {f g : Forest}, like f g → R (M.stepsFrom f ds) (N.stepsFrom g ds)
  | [], f, g, hfg => by
    rw [Means.stepsFrom, Means.stepsFrom]
    exact h.pure (.some hfg)
  | d :: ds, f, g, hfg => by
    rw [Means.stepsFrom, Means.stepsFrom]
    refine h.bind (step h d) fun more more' hmore => ?_
    cases hmore with
    | some hmore => exact stepsFrom h ds (h.append hfg hmore)
    | none => exact h.bind (h.unread hfg) fun _ _ _ => h.pure .none

end

variable (h : Compatible M N like fit R)
include h

/-- All steps in order are related. -/
theorem sequence (ds : List Designator) : R (M.sequence ds) (N.sequence ds) :=
  h.stepsFrom ds h.nil

/-- Alternatives are related: both computations take the same one. -/
theorem choice (alternatives : List (List Designator)) :
    R (M.choice alternatives) (N.choice alternatives) := by
  induction alternatives with
  | nil => exact h.pure .none
  | cons ds rest ih =>
    rw [Means.choice, Means.choice]
    refine h.bind (h.sequence ds) fun f g hfg => ?_
    cases hfg with
    | some hfg => exact h.pure (.some hfg)
    | none => exact ih

/-- Tails are related as long as the bounds fit together. -/
theorem tails (tail : List Designator) {m n : Nat} (hmn : fit m n) :
    R (M.tails tail m) (N.tails tail n) := by
  induction m generalizing n with
  | zero => exact h.exhausted tail hmn (.inl rfl)
  | succ m ih =>
    cases n with
    | zero => exact h.exhausted tail hmn (.inr rfl)
    | succ n =>
      rw [Means.tails, Means.tails]
      refine h.spent (h.bind (h.sequence tail) fun f g hfg => ?_)
      cases hfg with
      | some hfg => exact h.bind (ih (h.lower hmn)) fun f' g' hfg' => h.pure (h.append hfg hfg')
      | none => exact h.pure h.nil

/-- A repetition is related by its head and its tails. -/
theorem repetition (head tail : List Designator) :
    R (M.repetition head tail) (N.repetition head tail) := by
  unfold Means.repetition
  refine h.bind (h.sequence head) fun f g hfg => ?_
  cases hfg with
  | @some f g hfg =>
    refine h.room (x := fun m => return some (f ++ (← M.tails tail m)))
      (y := fun n => return some (g ++ (← N.tails tail n))) fun m n hmn => ?_
    exact h.bind (h.tails tail hmn) fun f' g' hfg' => h.pure (.some (h.append hfg hfg'))
  | none => exact h.pure .none

/-- **Related means match alike.** -/
theorem body (b : Body) : R (M.body b) (N.body b) := by
  cases b with
  | choice alternatives => exact h.choice alternatives
  | repetition head tail => exact h.repetition head tail

omit h

/-- Relations of computations that answer the same, by the same bounds. -/
theorem of_eq {R : ∀ {α : Type}, EStateM ε State α → EStateM ε' State α → Prop}
    (pure : ∀ {α : Type} (a : α), R (Pure.pure a) (Pure.pure a))
    (bind : ∀ {α β : Type} {x : EStateM ε State α} {y : EStateM ε' State α}
      {f : α → EStateM ε State β} {g : α → EStateM ε' State β},
      R x y → (∀ a, R (f a) (g a)) → R (x >>= f) (y >>= g))
    (terminal : ∀ kind, R (M.terminal kind) (N.terminal kind))
    (rule : ∀ kind, R (M.rule kind) (N.rule kind))
    (unread : ∀ f, R (M.unread f) (N.unread f))
    (optional : ∀ {x y}, R x y → R (M.optional x) (N.optional y))
    (spent : ∀ {x : EStateM ε State Forest} {y : EStateM ε' State Forest}, R x y →
      R (do if (← get).spent then return [] else x) (do if (← get).spent then return [] else y))
    (room : ∀ {x : Nat → EStateM ε State (Option Forest)}
      {y : Nat → EStateM ε' State (Option Forest)}, (∀ n, R (x n) (y n)) →
      R (do x ((← get).reader.size + 2)) (do y ((← get).reader.size + 2)))
    (endless : R (throw M.endless : EStateM ε State Forest) (throw N.endless)) :
    Compatible M N Eq Eq R where
  nil := rfl
  append h h' := by rw [h, h']
  pure h := Answer.rel_eq.1 h ▸ pure _
  bind hx hf := bind hx fun a => hf a a (Answer.rel_eq.2 rfl)
  terminal := terminal
  rule := rule
  unread h := h ▸ unread _
  optional := optional
  spent := spent
  room h := room fun n => h n n rfl
  lower := Nat.succ.inj
  exhausted := by
    rintro m n tail rfl hm
    obtain rfl : m = 0 := hm.elim id id
    exact endless

end Compatible

/-! ### Single computations -/

namespace RecognizerM

/-- A property of computations that is kept when they are put together, and that the steps of an
attempt have. -/
structure Compositional (P : ∀ {α : Type}, RecognizerM α → Prop) : Prop where
  pure : ∀ {α : Type} (a : α), P (Pure.pure a : RecognizerM α)
  bind : ∀ {α β : Type} {x : RecognizerM α} {f : α → RecognizerM β},
    P x → (∀ a, P (f a)) → P (x >>= f)
  terminal : ∀ kind, P (terminal kind)
  unread : ∀ f, P (unread f)
  spent : ∀ {x : RecognizerM Forest}, P x → P (do if (← get).spent then return [] else x)
  room : ∀ {x : Nat → RecognizerM (Option Forest)}, (∀ n, P (x n)) →
    P (do x ((← get).reader.size + 2))
  endless : P (throw .endless : RecognizerM Forest)

/-- **What holds of the productions holds of all ways of matching with them.** -/
theorem Compositional.body {P : ∀ {α : Type}, RecognizerM α → Prop} (h : Compositional P)
    {rule : Kind → RecognizerM (Option Tree)} (hr : ∀ k, P (rule k)) (b : Body) :
    P (body rule b) := by
  have hsame : Compatible (means rule) (means rule) Eq Eq fun x y => x = y ∧ P x := by
    refine .of_eq (fun a => ⟨rfl, h.pure a⟩) ?_ (fun k => ⟨rfl, h.terminal k⟩)
      (fun k => ⟨rfl, hr k⟩) (fun f => ⟨rfl, h.unread f⟩) ?_ ?_ ?_ ⟨rfl, h.endless⟩
    · rintro α β x y f g ⟨rfl, hx⟩ hf
      exact ⟨by rw [funext fun a => (hf a).1], h.bind hx fun a => (hf a).2⟩
    · rintro x y ⟨rfl, hx⟩
      exact ⟨rfl, h.bind hx fun f => h.pure _⟩
    · rintro x y ⟨rfl, hx⟩
      exact ⟨rfl, h.spent hx⟩
    · intro x y hxy
      obtain rfl : x = y := funext fun n => (hxy n).1
      exact ⟨rfl, h.room fun n => (hxy n).2⟩
  rw [body_eq]
  exact (hsame.body b).2

end RecognizerM
end BoolQuery
