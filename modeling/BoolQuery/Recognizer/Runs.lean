/-
# Runs taken apart

What a run that answers went through: an equation for every single step, and for every way of
matching the runs it is made of. Nothing after this module opens a way of matching again.
-/

import BoolQuery.Recognizer.Rule

namespace BoolQuery
namespace RecognizerM

open Recognizer Grammar

/-! ### Single steps -/

/-- A run of one computation after the other is a run of the first and, from where it ended, one of
the second. -/
theorem bind_ok {α β : Type} {x : RecognizerM α} {f : α → RecognizerM β} {s s' : State} {b : β}
    (h : (x >>= f) s = .ok b s') : ∃ a t, x s = .ok a t ∧ f a t = .ok b s' := by
  change EStateM.bind x f s = _ at h
  unfold EStateM.bind at h
  split at h
  · rename_i a t hx
    exact ⟨a, t, hx, h⟩
  · simp at h

/-- Runs of two computations are put together to one of both. -/
theorem bind_run {α β : Type} {x : RecognizerM α} {f : α → RecognizerM β} {s t : State} {a : α}
    (h : x s = .ok a t) : (x >>= f) s = f a t := by
  change EStateM.bind x f s = _
  simp only [EStateM.bind, h]

/-- A look at the state leaves it as it is. -/
theorem get_run (s : State) : (get : RecognizerM State) s = .ok s s := rfl

/-- Reading answers with the next token of the reader. -/
theorem nextToken_run (s : State) :
    nextToken s = .ok s.reader.next.1 { s with reader := s.reader.next.2 } := rfl

/-- A token of the kind asked for is taken. Any other one is noted and goes back to where it was. -/
theorem terminal_run (k : TokenKind) (s : State) :
    terminal (.token k) s =
      if s.reader.next.1.kind = .token k then
        .ok (some s.reader.next.1) { s with reader := s.reader.next.2 }
      else
        .ok none { s with
          reader := s.reader.next.2.pushAll [s.reader.next.1]
          furthest := further s.furthest s.reader.next.1 } := by
  rw [terminal, bind_run (nextToken_run s)]
  split <;> rfl

/-- Trees are given back with an event that tells so; without trees nothing happens. -/
theorem unread_run (f : Forest) (s : State) :
    unread f s =
      if f = [] then .ok () s
      else .ok () { s with
        reader := s.reader.pushAll (Tree.forestTokens f)
        events := s.events.push (.backtrack (Tree.forestTokens f)) } := by
  cases f <;> rfl

/-- A production is opened unless the attempt is spent or the limit is reached, by which it is
spent. -/
theorem openRule_run (s : State) :
    openRule s =
      if s.spent then .ok false s
      else if s.limit.any (· ≤ s.depth) then .ok false { s with spent := true }
      else .ok true { s with depth := s.depth + 1 } := by
  simp only [openRule, modifyGet, MonadStateOf.modifyGet]
  delta EStateM.modifyGet
  dsimp only
  split
  · rfl
  · split <;> rfl

/-! ### Ways of matching -/

section

variable {rule : Kind → RecognizerM (Option Tree)} {s s' : State}

/-- A step that asks for a token answers with the token as a leaf. -/
theorem step_terminal_ok {kind : Kind} {a : Option Forest}
    (h : step rule (.terminal kind) s = .ok a s') :
    ∃ t, terminal kind s = .ok t s' ∧ a = t.map fun t => [.leaf t] := by
  simp only [step] at h
  obtain ⟨t, u, ht, h⟩ := bind_ok h
  cases h
  exact ⟨t, ht, rfl⟩

/-- A step that asks for a production answers with its tree. -/
theorem step_rule_ok {kind : Kind} {a : Option Forest}
    (h : step rule (.rule kind) s = .ok a s') :
    ∃ t, rule kind s = .ok t s' ∧ a = t.map fun t => [t] := by
  simp only [step] at h
  obtain ⟨t, u, ht, h⟩ := bind_ok h
  cases h
  exact ⟨t, ht, rfl⟩

/-- Steps that may be missing answer in any case, with nothing if they miss. -/
theorem step_optional_ok {ds : List Designator} {a : Option Forest}
    (h : step rule (.optional ds) s = .ok a s') :
    ∃ f, stepsFrom rule [] ds s = .ok f s' ∧ a = some (f.getD []) := by
  simp only [step] at h
  obtain ⟨f, u, hf, h⟩ := bind_ok h
  cases h
  exact ⟨f, hf, rfl⟩

/-- With no steps left, the trees so far are the answer. -/
theorem stepsFrom_nil_ok {done : Forest} {a : Option Forest}
    (h : stepsFrom rule done [] s = .ok a s') : a = some done ∧ s' = s := by
  simp only [stepsFrom] at h
  cases h
  exact ⟨rfl, rfl⟩

/-- Steps in order answer in one of two ways: the first step matches and the others go on, or it
misses and all that was read is given back. -/
theorem stepsFrom_cons_ok {done : Forest} {d : Designator} {ds : List Designator}
    {a : Option Forest} (h : stepsFrom rule done (d :: ds) s = .ok a s') :
    (∃ more u, step rule d s = .ok (some more) u ∧
      stepsFrom rule (done ++ more) ds u = .ok a s') ∨
    (∃ u, step rule d s = .ok none u ∧ unread done u = .ok () s' ∧ a = none) := by
  simp only [stepsFrom] at h
  obtain ⟨f, u, hf, h⟩ := bind_ok h
  cases f with
  | some more => exact .inl ⟨more, u, hf, h⟩
  | none =>
    obtain ⟨_, w, hw, h⟩ := bind_ok h
    cases h
    exact .inr ⟨u, hf, hw, rfl⟩

/-- With no alternatives left nothing matches. -/
theorem choice_nil_ok {a : Option Forest} (h : choice rule [] s = .ok a s') :
    a = none ∧ s' = s := by
  cases h
  exact ⟨rfl, rfl⟩

/-- The first alternative matches, or it misses and another one is looked for. -/
theorem choice_cons_ok {ds : List Designator} {rest : List (List Designator)}
    {a : Option Forest} (h : choice rule (ds :: rest) s = .ok a s') :
    (∃ f, sequence rule ds s = .ok (some f) s' ∧ a = some f) ∨
    (∃ u, sequence rule ds s = .ok none u ∧ choice rule rest u = .ok a s') := by
  simp only [choice] at h
  obtain ⟨f, u, hf, h⟩ := bind_ok h
  cases f with
  | some f =>
    cases h
    exact .inl ⟨f, hf, rfl⟩
  | none => exact .inr ⟨u, hf, h⟩

/-- What is optional is a choice that has nothing as its second alternative. -/
theorem optional_ok {ds : List Designator} {f : Forest}
    (h : optional rule ds s = .ok f s') :
    ∃ a, choice rule [ds, []] s = .ok a s' ∧ f = a.getD [] := by
  unfold optional at h
  obtain ⟨a, u, ha, h⟩ := bind_ok h
  cases h
  exact ⟨a, ha, rfl⟩

/-- The tails of a repetition stop when the attempt is spent or the tail misses, or a tail matches
and others may follow. -/
theorem tails_succ_ok {tail : List Designator} {bound : Nat} {f : Forest}
    (h : tails rule tail (bound + 1) s = .ok f s') :
    (s.spent = true ∧ f = [] ∧ s' = s) ∨
    (s.spent = false ∧ sequence rule tail s = .ok none s' ∧ f = []) ∨
    (∃ more u g, s.spent = false ∧ sequence rule tail s = .ok (some more) u ∧
      tails rule tail bound u = .ok g s' ∧ f = more ++ g) := by
  simp only [tails] at h
  obtain ⟨_, _, hg, h⟩ := bind_ok h
  cases hg
  split at h
  · rename_i hs
    cases h
    exact .inl ⟨hs, rfl, rfl⟩
  · rename_i hs
    have hs : s.spent = false := by simpa using hs
    obtain ⟨a, u, ha, h⟩ := bind_ok h
    cases a with
    | none =>
      cases h
      exact .inr (.inl ⟨hs, ha, rfl⟩)
    | some more =>
      obtain ⟨g, w, hg, h⟩ := bind_ok h
      cases h
      exact .inr (.inr ⟨more, u, g, hs, ha, hg, rfl⟩)

/-- A repetition misses with its head, or goes on behind it with tails. -/
theorem repetition_ok {head tail : List Designator} {a : Option Forest}
    (h : repetition rule head tail s = .ok a s') :
    (sequence rule head s = .ok none s' ∧ a = none) ∨
    (∃ first u g, sequence rule head s = .ok (some first) u ∧
      tails rule tail (u.reader.size + 2) u = .ok g s' ∧ a = some (first ++ g)) := by
  unfold repetition at h
  obtain ⟨f, u, hf, h⟩ := bind_ok h
  cases f with
  | none =>
    cases h
    exact .inl ⟨hf, rfl⟩
  | some first =>
    obtain ⟨_, _, hg, h⟩ := bind_ok h
    cases hg
    obtain ⟨g, w, hg, h⟩ := bind_ok h
    cases h
    exact .inr ⟨first, u, g, hf, hg, rfl⟩

end

/-! ### Productions -/

/-- The state in which the right-hand side of a production is matched. -/
def opened (kind : Kind) (s : State) : State :=
  { s with depth := s.depth + 1, events := s.events.push (.enter kind) }

/-- The state after a production whose right-hand side answered with `f`. -/
def closed (k : NodeKind) (f : Option Forest) (s : State) : State :=
  { s with
    depth := s.depth - 1
    events := s.events.push
      (f.elim (.failed (.node k)) fun children => .matched (.node k children)) }

/-- A production answers in one of two ways: it is not opened, as the attempt is spent or the limit
is reached, or its right-hand side is matched between opening and closing it. -/
theorem ruleWithin_succ_ok {bound : Nat} {kind : Kind} {s s' : State} {a : Option Tree}
    (h : ruleWithin (bound + 1) kind s = .ok a s') :
    (openRule s = .ok false s' ∧ a = none) ∨
    (∃ k f u, kind = .node k ∧ openRule s = .ok true { s with depth := s.depth + 1 } ∧
      body (ruleWithin bound) (Grammar.body k) (opened kind s) = .ok f u ∧
      a = f.map (.node k) ∧ s' = closed k f u) := by
  simp only [ruleWithin] at h
  obtain ⟨b, u, ho, h⟩ := bind_ok h
  cases b with
  | false =>
    cases h
    exact .inl ⟨ho, rfl⟩
  | true =>
    have hu : u = { s with depth := s.depth + 1 } := by
      rw [openRule_run] at ho
      split at ho
      · cases ho
      · split at ho <;> cases ho
        rfl
    subst hu
    obtain ⟨_, _, he, h⟩ := bind_ok h
    cases he
    cases kind with
    | token k => cases h
    | endMark => cases h
    | node k =>
      obtain ⟨f, u, hf, h⟩ := bind_ok h
      obtain ⟨_, _, hc, h⟩ := bind_ok h
      cases hc
      refine .inr ⟨k, f, u, rfl, ho, hf, ?_⟩
      cases f <;> cases h <;> exact ⟨rfl, rfl⟩

end RecognizerM
end BoolQuery
