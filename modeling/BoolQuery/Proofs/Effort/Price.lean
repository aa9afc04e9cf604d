/-
# What the productions of a course cost

Every production that begins has a price, and a course costs what all productions cost that begin in
it. A price of one counts the productions that begin; a price for one kind only counts those of the
kind. Below a term nothing is begun twice: each alternative costs itself and what it asks for, and
only the last one, a group, holds terms again.
-/

import BoolQuery.Proofs.ByPlace.CourseParts
import BoolQuery.Proofs.Nesting.Within
import Mathlib.Algebra.GroupWithZero.Nat

namespace BoolQuery

open Grammar Recognizer

namespace Recognizer

/-! ### What is paid for events -/

/-- The event is the beginning of the production. -/
def Event.begins (k : NodeKind) : Event → Bool
  | .enter kind => kind = .node k
  | _ => false

/-- What an event costs: the price of the production that begins, if one does. -/
def Event.charge (price : Kind → Nat) : Event → Nat
  | .enter kind => price kind
  | _ => 0

/-- What the productions cost that begin. -/
def effort (price : Kind → Nat) (es : List Event) : Nat := (es.map (Event.charge price)).sum

variable {price : Kind → Nat} {es fs : List Event}

@[simp] theorem effort_append : effort price (es ++ fs) = effort price es + effort price fs := by
  rw [effort, List.map_append, List.sum_append, effort, effort]

@[simp] theorem effort_around (k : NodeKind) (f : Option Forest) :
    effort price (Event.around k f es) = price (.node k) + effort price es := by
  cases f <;> simp [effort, Event.around, Event.closing, Event.charge]

/-- Prices of one and of nothing count the events that cost. -/
theorem effort_eq_countP {p : Event → Bool}
    (h : ∀ e, Event.charge price e = if p e then 1 else 0) (es : List Event) :
    effort price es = es.countP p := by
  induction es with
  | nil => rfl
  | cons e es ih =>
    rw [List.countP_cons, ← ih, effort, List.map_cons, List.sum_cons, h, Nat.add_comm, ← effort]

theorem Still.append (h : Still es) (h' : Still fs) : Still (es ++ fs) where
  opens := by rw [List.countP_append, h.opens, h'.opens]
  closes := by rw [List.countP_append, h.closes, h'.closes]

/-- Where no production begins nothing is paid. -/
theorem Still.effort (h : Still es) : effort price es = 0 := by
  rw [Recognizer.effort, List.sum_eq_zero_iff_forall_eq_nat]
  simp only [List.forall_mem_map]
  intro e he
  have hopens := List.countP_eq_zero.1 h.opens e he
  cases e with
  | enter _ => exact absurd rfl hopens
  | matched _ | failed _ | backtrack _ => rfl

end Recognizer

namespace ByPlace

/-! ### What a course costs -/

/-- All of the steps ask for tokens. -/
def AllTokens (ds : List Designator) : Prop := ∀ d ∈ ds, ∃ k : TokenKind, d = tok k

/-- The goal asks for tokens only. -/
def Goal.Flat : Goal → Prop
  | step d => AllTokens [d]
  | steps _ ds => AllTokens ds
  | choice alternatives => ∀ ds ∈ alternatives, AllTokens ds
  | tails tail => AllTokens tail
  | repetition head tail => AllTokens head ∧ AllTokens tail
  | rule _ => False

/-- A production and those that it may ask for, groups left out. -/
def parts : NodeKind → List NodeKind
  | .wordSequence => [.wordSequence]
  | .phraseOrWords => [.phraseOrWords, .wordSequence]
  | .exclusion => [.exclusion]
  | .inclusion => [.inclusion]
  | .prefixTerm => [.prefixTerm]
  | .term => [.term, .exclusion, .inclusion, .prefixTerm, .phraseOrWords, .wordSequence]
  | .andTerm =>
    [.andTerm, .term, .exclusion, .inclusion, .prefixTerm, .phraseOrWords, .wordSequence]
  | .orTerm =>
    [.orTerm, .andTerm, .term, .exclusion, .inclusion, .prefixTerm, .phraseOrWords,
      .wordSequence]
  | .query =>
    [.query, .orTerm, .andTerm, .term, .exclusion, .inclusion, .prefixTerm, .phraseOrWords,
      .wordSequence]

/-- The price of a production and of those that it may ask for, each begun once. -/
def onceEach (price : Kind → Nat) (k : NodeKind) : Nat :=
  ((parts k).map fun m => price (.node m)).sum

variable {place : Nat → Token} {price : Kind → Nat} {i j : Nat} {f : Forest} {o : Outcome}
  {ns : List Note} {k m : NodeKind}

namespace Course

/-- Where only tokens are asked for no production begins. -/
theorem still {g : Goal} (h : Course place g i o ns) (hg : g.Flat) : Still (Note.events ns) := by
  have hhead : ∀ {d : Designator} {ds : List Designator}, AllTokens (d :: ds) →
      AllTokens [d] ∧ AllTokens ds := fun h =>
    ⟨fun e he => h e (List.mem_cons.2 (.inl (List.mem_singleton.1 he))),
      fun e he => h e (.tail _ he)⟩
  induction h with
  | token_hit _ | token_miss _ | steps_nil | choice_nil => exact .nil
  | sub _ _ | optional_hit _ _ | optional_miss _ _ =>
    obtain ⟨_, h⟩ := hg _ (.head _)
    cases h
  | @steps_miss done _ _ _ _ _ ih =>
    rw [Note.events_append]
    exact (ih (hhead hg).1).append (Note.still_returned done)
  | steps_behind _ _ ih ih' | steps_hit _ _ ih ih' =>
    rw [Note.events_append]
    exact (ih (hhead hg).1).append (ih' (hhead hg).2)
  | choice_hit _ ih => exact ih (hg _ (.head _))
  | choice_next _ _ ih ih' =>
    rw [Note.events_append]
    exact (ih (hg _ (.head _))).append (ih' fun ds hds => hg ds (.tail _ hds))
  | tails_stop _ ih => exact ih hg
  | tails_more _ _ ih ih' =>
    rw [Note.events_append]
    exact (ih hg).append (ih' hg)
  | repetition_miss _ ih => exact ih hg.1
  | repetition_hit _ _ ih ih' =>
    rw [Note.events_append]
    exact (ih hg.1).append (ih' hg.2)
  | rule_miss _ _ | rule_hit _ _ => exact hg.elim

/-- An alternative that is tried matches or misses, and only behind one that misses others are
tried. -/
theorem of_choice {ds : List Designator} {rest : List (List Designator)}
    (h : Course place (.choice (ds :: rest)) i o ns) :
    Course place (.steps [] ds) i o ns ∨
    ∃ us ms, Course place (.steps [] ds) i none us ∧ Course place (.choice rest) i o ms ∧
      ns = us ++ ms := by
  cases h with
  | choice_hit h => exact .inl h
  | choice_next h hrest => exact .inr ⟨_, _, h, hrest, rfl⟩

/-- A production that is asked for alone. -/
theorem of_sub_alone (h : Course place (.steps [] [Grammar.sub m]) i o ns) :
    Course place (.rule m) i o ns := by
  cases o with
  | none => exact h.of_sub_miss
  | some r =>
    obtain ⟨f, j⟩ := r
    obtain ⟨g, rfl, hm⟩ := h.of_sub_hit
    exact hm

/-- A production that matches is one tree. -/
theorem eq_singleton (h : Course place (.rule k) i (some (f, j)) ns) : ∃ t, f = [t] := by
  cases h with
  | rule_hit _ => exact ⟨_, rfl⟩

/-! ### Productions below a term -/

variable (price) in
/-- A production whose body asks for tokens only costs its own price. -/
theorem effort_of_flat_body (h : Course place (.rule k) i o ns)
    (hk : (Goal.ofBody (Grammar.body k)).Flat) :
    effort price (Note.events ns) = price (.node k) := by
  obtain ⟨o', ms, hbody, rfl, -⟩ := h.of_rule
  rw [Note.events_around, effort_around, (hbody.still hk).effort, Nat.add_zero]

variable (price) in
/-- The productions below a term begin once each at most. -/
theorem effort_le_of_flat (h : Course place (.rule k) i o ns) (hk : RecognizerM.rank k ≤ 2) :
    effort price (Note.events ns) ≤ onceEach price k := by
  cases k with
  | wordSequence | exclusion | inclusion | prefixTerm =>
    rw [h.effort_of_flat_body price (by simp [Goal.Flat, Goal.ofBody, Grammar.body, AllTokens])]
    simp [onceEach, parts]
  | phraseOrWords =>
    obtain ⟨o', ms, hbody, rfl, -⟩ := h.of_rule
    have hphrase : ∀ {o us}, Course place (.steps [] [tok .phrase]) i o us →
        effort price (Note.events us) = 0 := fun hus =>
      (hus.still (by simp [Goal.Flat, AllTokens])).effort
    rw [Note.events_around, effort_around]
    rcases of_choice hbody with hhit | ⟨us, vs, hmiss, hwords, rfl⟩
    · simp [hphrase hhit, onceEach, parts]
    · have hvs := hwords.of_single.of_sub_alone.effort_of_flat_body price
        (by simp [Goal.Flat, Goal.ofBody, Grammar.body, AllTokens])
      simp [hphrase hmiss, hvs, onceEach, parts]
  | term | andTerm | orTerm | query => simp [RecognizerM.rank] at hk

variable (price) in
/-- Of the alternatives of a term those below it cost what they cost once each, and a group, which
is the last one, is tried behind all of them. -/
theorem of_alternatives (ks : List NodeKind) (hks : ∀ k ∈ ks, RecognizerM.rank k ≤ 2)
    (h : Course place (.choice (ks.map (fun k => [Grammar.sub k]) ++ [groupSteps])) i o ns) :
    effort price (Note.events ns) ≤ (ks.map (onceEach price)).sum ∨
    ∃ us gs, Course place (.steps [] groupSteps) i o gs ∧ ns = us ++ gs ∧
      effort price (Note.events us) ≤ (ks.map (onceEach price)).sum := by
  induction ks generalizing ns with
  | nil => exact .inr ⟨[], ns, h.of_single, rfl, Nat.zero_le _⟩
  | cons k ks ih =>
    rw [List.forall_mem_cons] at hks
    rw [List.map_cons, List.sum_cons]
    rcases of_choice h with hhit | ⟨us, ms, hmiss, hrest, rfl⟩
    · have hns := hhit.of_sub_alone.effort_le_of_flat price hks.1
      exact .inl (hns.trans (Nat.le_add_right ..))
    · have hus := hmiss.of_sub_miss.effort_le_of_flat price hks.1
      rcases ih hks.2 hrest with hms | ⟨vs, gs, hgroup, rfl, hvs⟩
      · refine .inl ?_
        rw [Note.events_append, effort_append]
        omega
      · refine .inr ⟨us ++ vs, gs, hgroup, (List.append_assoc ..).symm, ?_⟩
        rw [Note.events_append, effort_append]
        omega

end Course

end ByPlace
end BoolQuery
