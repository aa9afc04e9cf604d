/-
# Every unlimited run takes a course

What an attempt without limit shows to an observer, and which token it remembers as the furthest
that was not the one asked for, are the notes of a course by place. So nothing about the events or
about the furthest token has to be said of reading and giving back.
-/

import BoolQuery.Proofs.Acceptance
import BoolQuery.Proofs.ByPlace.Course

namespace BoolQuery

open Recognizer Grammar ByPlace

namespace RecognizerM

variable {place : Nat → Token} {i : Nat} {s s' : State}

/-- Between two states exactly this was noted. -/
structure Noted (place : Nat → Token) (ns : List Note) (s s' : State) : Prop where
  events : s'.events.toList = s.events.toList ++ Note.events ns
  furthest : s'.furthest =
    (Note.mismatches ns).foldl (fun seen i => further seen (place i)) s.furthest

/-- Without notes neither events nor mismatches are new. -/
theorem Noted.nil (s : State) : Noted place [] s s := ⟨(List.append_nil _).symm, rfl⟩

/-- Notes of one run after the other are put one behind the other. -/
theorem Noted.append {ns ms : List Note} {t : State} (h : Noted place ns s t)
    (h' : Noted place ms t s') : Noted place (ns ++ ms) s s' where
  events := by rw [h'.events, h.events, Note.events_append, List.append_assoc]
  furthest := by rw [h'.furthest, h.furthest, Note.mismatches_append, List.foldl_append]

/-- A step that asks for a token takes the course of a hit or of a miss, and notes the miss. -/
theorem terminal_course (k : TokenKind) {rule : Kind → RecognizerM (Option Tree)}
    {a : Option Forest} (hs : s.At place i) (h : step rule (tok k) s = .ok a s') :
    ∃ ns, Course place (.step (tok k)) i (a.map fun f => (f, i + (Tree.forestTokens f).length)) ns ∧
      Noted place ns s s' := by
  obtain ⟨t, ht, rfl⟩ := step_terminal_ok h
  obtain ⟨hn, -⟩ := next_at hs
  rw [terminal_run, hn] at ht
  split at ht
  · rename_i hk
    cases ht
    exact ⟨[], .token_hit hk, (List.append_nil _).symm, rfl⟩
  · rename_i hk
    cases ht
    exact ⟨[.mismatch i], .token_miss hk, (List.append_nil _).symm, rfl⟩

/-- Giving trees back is noted as an event, unless there are none. -/
theorem unread_noted {f : Forest} (h : unread f s = .ok () s') :
    Noted place (Note.returned f) s s' := by
  rw [unread_run] at h
  cases f with
  | nil =>
    cases h
    exact .nil s
  | cons t ts =>
    cases h
    exact ⟨Array.toList_push, rfl⟩

/-- A production that is asked for takes a course. -/
def RuleCourse (place : Nat → Token) (rule : Kind → RecognizerM (Option Tree)) : Prop :=
  ∀ k i s t s', s.At place i → rule (.node k) s = .ok t s' →
    ∃ ns, Course place (.rule k) i (t.map fun t => ([t], i + t.tokens.length)) ns ∧
      Noted place ns s s'

section

variable {rule : Kind → RecognizerM (Option Tree)}

mutual

/-- A single step takes a course as the production in it does. -/
theorem step_course (hr : RuleFollows place rule) (hc : RuleCourse place rule) :
    ∀ d i s a s', s.At place i → step rule d s = .ok a s' →
      ∃ ns, Course place (.step d) i (a.map fun f => (f, i + (Tree.forestTokens f).length)) ns ∧
        Noted place ns s s'
  | .terminal (.token k), i, s, a, s', hs, h => terminal_course k hs h
  | .terminal (.node k), i, s, a, s', hs, h => by
    obtain ⟨t, ht, -⟩ := step_terminal_ok h
    cases ht
  | .terminal .endMark, i, s, a, s', hs, h => by
    obtain ⟨t, ht, -⟩ := step_terminal_ok h
    cases ht
  | .rule kind, i, s, a, s', hs, h => by
    obtain ⟨t, ht, rfl⟩ := step_rule_ok h
    obtain ⟨k, rfl, -⟩ := hr kind i s t s' hs ht
    obtain ⟨ns, hcourse, hnoted⟩ := hc k i s t s' hs ht
    refine ⟨ns, .sub ?_, hnoted⟩
    cases t with
    | none => exact hcourse
    | some t =>
      simp only [Option.map_some, Tree.forestTokens_singleton]
      exact hcourse
  | .optional ds, i, s, a, s', hs, h => by
    obtain ⟨f, hf, rfl⟩ := step_optional_ok h
    obtain ⟨b, ns, rfl, hcourse, hnoted⟩ := stepsFrom_course hr hc ds [] s f s' i hs hf
    cases b with
    | none => exact ⟨ns, .optional_miss hcourse, hnoted⟩
    | some g => exact ⟨ns, .optional_hit hcourse, hnoted⟩

/-- Steps in order take a course behind the trees in front of them, given back on a miss. -/
theorem stepsFrom_course (hr : RuleFollows place rule) (hc : RuleCourse place rule) :
    ∀ ds done s a s' i, s.At place i → stepsFrom rule done ds s = .ok a s' →
      ∃ (b : Option Forest) (ns : List Note), a = b.map (done ++ ·) ∧
        Course place (.steps done ds) i (b.map fun f => (f, i + (Tree.forestTokens f).length)) ns ∧
        Noted place ns s s'
  | [], done, s, a, s', i, hs, h => by
    obtain ⟨rfl, rfl⟩ := stepsFrom_nil_ok h
    refine ⟨some [], [], ?_, .steps_nil, .nil s'⟩
    rw [Option.map_some, List.append_nil]
  | d :: ds, done, s, a, s', i, hs, h => by
    rcases stepsFrom_cons_ok h with ⟨more, u, hf, h⟩ | ⟨u, hf, hu, rfl⟩
    · obtain ⟨-, -, hu⟩ := (step_follows hr d _ s _ u hs hf).hit
      obtain ⟨ns, hstep, hnoted⟩ := step_course hr hc d i s _ u hs hf
      obtain ⟨b, ms, rfl, hcourse, hnoted'⟩ :=
        stepsFrom_course hr hc ds (done ++ more) u a s' _ hu h
      cases b with
      | none => exact ⟨none, ns ++ ms, rfl, .steps_behind hstep hcourse, hnoted.append hnoted'⟩
      | some f =>
        refine ⟨some (more ++ f), ns ++ ms, ?_, ?_, hnoted.append hnoted'⟩
        · rw [Option.map_some, Option.map_some, List.append_assoc]
        · have hhit := Course.steps_hit hstep hcourse
          simp only [Option.map_some, Tree.forestTokens_append, List.length_append]
          rwa [← Nat.add_assoc]
    · obtain ⟨ns, hstep, hnoted⟩ := step_course hr hc d i s _ u hs hf
      exact ⟨none, ns ++ Note.returned done, rfl, .steps_miss hstep,
        hnoted.append (unread_noted hu)⟩

end

/-- A way of matching takes from every place a course of the goal. -/
def TakesCourse (place : Nat → Token) (act : RecognizerM (Option Forest)) (g : Goal) : Prop :=
  ∀ i s a s', s.At place i → act s = .ok a s' →
    ∃ ns, Course place g i (a.map fun f => (f, i + (Tree.forestTokens f).length)) ns ∧
      Noted place ns s s'

/-- All steps in order take a course with no trees in front. -/
theorem sequence_course (hr : RuleFollows place rule) (hc : RuleCourse place rule)
    (ds : List Designator) : TakesCourse place (sequence rule ds) (.steps [] ds) := by
  intro i s a s' hs h
  obtain ⟨b, ns, rfl, hcourse, hnoted⟩ := stepsFrom_course hr hc ds [] s a s' i hs h
  have hb : b.map ([] ++ ·) = b := by cases b <;> rfl
  rw [hb]
  exact ⟨ns, hcourse, hnoted⟩

/-- Alternatives take the courses of those that miss and of the one that matches. -/
theorem choice_course (hr : RuleFollows place rule) (hc : RuleCourse place rule)
    (alternatives : List (List Designator)) :
    TakesCourse place (choice rule alternatives) (.choice alternatives) := by
  induction alternatives with
  | nil =>
    intro i s a s' hs h
    obtain ⟨rfl, rfl⟩ := choice_nil_ok h
    exact ⟨[], .choice_nil, .nil s'⟩
  | cons ds rest ih =>
    intro i s a s' hs h
    rcases choice_cons_ok h with ⟨f, hf, rfl⟩ | ⟨u, hf, h⟩
    · obtain ⟨ns, hcourse, hnoted⟩ := sequence_course hr hc ds i s _ s' hs hf
      exact ⟨ns, .choice_hit hcourse, hnoted⟩
    · obtain ⟨-, hu⟩ := (sequence_follows hr ds i s _ u hs hf).miss
      obtain ⟨ns, hcourse, hnoted⟩ := sequence_course hr hc ds i s _ u hs hf
      obtain ⟨ms, hrest, hnoted'⟩ := ih i u a s' hu h
      exact ⟨ns ++ ms, .choice_next hcourse hrest, hnoted.append hnoted'⟩

/-- Tails take one course after the other, up to the miss that ends them. -/
theorem tails_course (hr : RuleFollows place rule) (hc : RuleCourse place rule)
    {tail : List Designator} {bound : Nat} {f : Forest} (hs : s.At place i)
    (h : tails rule tail bound s = .ok f s') :
    ∃ ns, Course place (.tails tail) i (some (f, i + (Tree.forestTokens f).length)) ns ∧
      Noted place ns s s' := by
  induction bound generalizing i s f with
  | zero => cases h
  | succ bound ih =>
    rcases tails_succ_ok h with ⟨hspent, -⟩ | ⟨_, hf, rfl⟩ | ⟨more, u, g, _, hf, hg, rfl⟩
    · exact absurd (hs.spent.symm.trans hspent) Bool.false_ne_true
    · obtain ⟨ns, hcourse, hnoted⟩ := sequence_course hr hc tail i s _ s' hs hf
      exact ⟨ns, .tails_stop hcourse, hnoted⟩
    · obtain ⟨-, -, hu⟩ := (sequence_follows hr tail i s _ u hs hf).hit
      obtain ⟨ns, hcourse, hnoted⟩ := sequence_course hr hc tail i s _ u hs hf
      obtain ⟨ms, hrest, hnoted'⟩ := ih hu hg
      refine ⟨ns ++ ms, ?_, hnoted.append hnoted'⟩
      rw [Tree.forestTokens_append, List.length_append, ← Nat.add_assoc]
      exact .tails_more hcourse hrest

/-- A repetition takes the course of its head and then that of the tails. -/
theorem repetition_course (hr : RuleFollows place rule) (hc : RuleCourse place rule)
    (head tail : List Designator) :
    TakesCourse place (repetition rule head tail) (.repetition head tail) := by
  intro i s a s' hs h
  rcases repetition_ok h with ⟨hf, rfl⟩ | ⟨first, u, g, hf, hg, rfl⟩
  · obtain ⟨ns, hcourse, hnoted⟩ := sequence_course hr hc head i s _ s' hs hf
    exact ⟨ns, .repetition_miss hcourse, hnoted⟩
  · obtain ⟨-, -, hu⟩ := (sequence_follows hr head i s _ u hs hf).hit
    obtain ⟨ns, hcourse, hnoted⟩ := sequence_course hr hc head i s _ u hs hf
    obtain ⟨ms, hrest, hnoted'⟩ := tails_course hr hc hu hg
    refine ⟨ns ++ ms, ?_, hnoted.append hnoted'⟩
    simp only [Option.map_some, Tree.forestTokens_append, List.length_append]
    rw [← Nat.add_assoc]
    exact .repetition_hit hcourse hrest

/-- **Right-hand sides take courses** if the productions in them do. -/
theorem body_course (hr : RuleFollows place rule) (hc : RuleCourse place rule) (b : Body) :
    TakesCourse place (body rule b) (.ofBody b) := by
  cases b with
  | choice alternatives => exact choice_course hr hc alternatives
  | repetition head tail => exact repetition_course hr hc head tail

end

/-- The notes of a production are those of its body, with its beginning and its end around them. -/
theorem noted_around {k : NodeKind} {f : Option Forest} {u : State} {ns : List Note}
    (h : Noted place ns (opened (.node k) s) u) :
    Noted place (Note.around k f ns) s (closed k f u) where
  events := by
    rw [toList_closed, h.events, opened, Array.toList_push, Note.events_around, Event.around]
    simp only [List.append_assoc, List.cons_append, List.nil_append]
  furthest := by rw [closed, h.furthest, Note.mismatches_around, opened]

/-- **Productions take courses**, with their events around those of their right-hand sides. -/
theorem ruleWithin_course (bound : Nat) : RuleCourse place (ruleWithin bound) := by
  induction bound with
  | zero =>
    intro k i s t s' _ h
    cases h
  | succ bound ih =>
    intro k i s t s' hs h
    rcases ruleWithin_succ_ok h with ⟨ho, -⟩ | ⟨m, f, u, hk, -, hf, rfl, rfl⟩
    · exact absurd (openRule_at hs ho) Bool.false_ne_true
    · obtain rfl : k = m := by
        cases hk
        rfl
      have hs' : (opened (.node k) s).At place i := ⟨hs.stream, hs.limit, hs.spent⟩
      obtain ⟨ns, hcourse, hnoted⟩ :=
        body_course (ruleWithin_follows bound) ih (Grammar.body k) i _ f u hs' hf
      cases f with
      | none => exact ⟨_, .rule_miss hcourse, noted_around hnoted⟩
      | some children => exact ⟨_, .rule_hit hcourse, noted_around hnoted⟩

/-- The bound on nesting has no part in it. -/
theorem rule_course : RuleCourse place rule := by
  intro k i s t s' hs h
  obtain ⟨_, _, hg, h⟩ := bind_ok h
  cases hg
  exact ruleWithin_course _ k i s t s' hs h

end RecognizerM

/-- Of the tokens at some places the one furthest into the line, the first one of those that start
at the same byte. -/
def furthestAt (place : Nat → Token) (is : List Nat) : Option Token :=
  is.foldl (fun seen i => further seen (place i)) none

/-- **The answer for a line is told by the course of `Query` at its start**, and the events are what
is noted on the way. -/
theorem exists_course (line : String) :
    ∃ ns, (recognizeTraced none line).2 = Note.events ns ∧
      ((∃ root, Course (tokenAt line) (.rule .query) 0 (some ([root], root.tokens.length)) ns ∧
          recognize none line =
            let next := tokenAt line root.tokens.length
            if next.kind = .token .eof then .ok root
            else .error (.trailingInput next.kind next.text next.span)) ∨
        Course (tokenAt line) (.rule .query) 0 none ns ∧
          recognize none line =
            let found := (furthestAt (tokenAt line) (Note.mismatches ns)).getD (tokenAt line 0)
            .error (.noMatch found.kind found.span)) := by
  obtain ⟨root?, u, hrule, htraced, hf⟩ := exists_answer line
  obtain ⟨ns, hcourse, hnoted⟩ := RecognizerM.rule_course .query 0 _ _ u (at_start line) hrule
  refine ⟨ns, ?_, ?_⟩
  · rw [htraced]
    exact hnoted.events
  · rw [recognize, htraced]
    cases root? with
    | some root =>
      have hu := hf.hit.2.2
      rw [Tree.forestTokens_singleton, Nat.zero_add] at hu
      refine .inl ⟨root, by simpa using hcourse, ?_⟩
      rw [State.answer_some hu.spent, (RecognizerM.next_at hu).1]
    | none =>
      have hu := hf.miss.2
      have hfurthest : u.furthest = furthestAt (tokenAt line) (Note.mismatches ns) :=
        hnoted.furthest
      refine .inr ⟨hcourse, ?_⟩
      rw [State.answer_none hu.spent, (RecognizerM.next_at hu).1, hfurthest]

end BoolQuery
