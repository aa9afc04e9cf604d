/-
# Reading agrees with matching by place

An attempt reads, gives back and reads again. What it comes to can be told without any of that:
from a state whose tokens to come are those from place `i` on, every way of matching answers what
matching by place comes to at `i`, and leaves the tokens from the place behind the match on. Giving
back puts exactly the tokens between two places in front, which is why it leads back to the earlier
place however deep the productions are nested.
-/

import BoolQuery.Proofs.ByPlace.Basic
import BoolQuery.Proofs.Calls
import BoolQuery.Proofs.Lexing.Places

namespace BoolQuery

open Recognizer Grammar Reader

/-- An attempt that nothing limits, with the tokens from place `i` on to come. -/
structure Recognizer.State.At (place : Nat → Token) (i : Nat) (s : State) : Prop where
  stream : s.reader.stream = fun n => place (i + n)
  limit : s.limit = none
  spent : s.spent = false

namespace RecognizerM

variable {place : Nat → Token} {i : Nat} {s s' : State}

/-- Reading takes the token at the place and leads to the next place. -/
theorem next_at (h : s.At place i) :
    s.reader.next.1 = place i ∧
      s.reader.next.2.stream = fun n => place (i + 1 + n) := by
  refine ⟨congrFun h.stream 0, ?_⟩
  funext n
  rw [show i + 1 + n = i + (n + 1) by omega]
  exact congrFun h.stream (n + 1)

/-- Tokens that are given back in front of the place behind them lead back to their own place. -/
theorem stream_pushAll_at {r : Reader} {ts : List Token} (hts : StandAt place i ts)
    (h : r.stream = fun n => place (i + ts.length + n)) :
    (r.pushAll ts).stream = fun n => place (i + n) := by
  rw [stream_pushAll, h]
  exact hts.inFront_eq

/-- What a way of matching did from place `i` on is what `outcome` says: it read the tokens that
stand there, if any, and came to the place behind them. -/
structure Followed (place : Nat → Token) (i : Nat) (answer : Option Forest) (s' : State)
    (outcome : Option ByPlace.Outcome) : Prop where
  outcome_eq : outcome = some (answer.map fun f => (f, i + (Tree.forestTokens f).length))
  tokens : StandAt place i (matchedTokens answer)
  state : s'.At place (i + (matchedTokens answer).length)

/-- A way of matching does from every place what `byPlace` says. -/
def Follows (place : Nat → Token) (act : RecognizerM (Option Forest))
    (byPlace : Nat → Option ByPlace.Outcome) : Prop :=
  ∀ i s a s', s.At place i → act s = .ok a s' → Followed place i a s' (byPlace i)

/-- A miss by place leads back to the place where it began. -/
theorem Followed.miss {o : Option ByPlace.Outcome} (h : Followed place i none s' o) :
    o = some none ∧ s'.At place i :=
  ⟨h.outcome_eq, h.state⟩

/-- A match by place is of the tokens that stand there and leads behind them. -/
theorem Followed.hit {f : Forest} {o : Option ByPlace.Outcome}
    (h : Followed place i (some f) s' o) :
    o = some (some (f, i + (Tree.forestTokens f).length)) ∧
      StandAt place i (Tree.forestTokens f) ∧
      s'.At place (i + (Tree.forestTokens f).length) :=
  ⟨h.outcome_eq, h.tokens, h.state⟩

/-- To follow a miss is to come back. -/
theorem Followed.of_miss {o : Option ByPlace.Outcome} (ho : o = some none)
    (hs : s'.At place i) : Followed place i none s' o :=
  ⟨ho, standAt_nil, hs⟩

/-- To follow a match is to read its tokens and to come to the place behind them. -/
theorem Followed.of_hit {f : Forest} {o : Option ByPlace.Outcome}
    (ho : o = some (some (f, i + (Tree.forestTokens f).length)))
    (hf : StandAt place i (Tree.forestTokens f))
    (hs : s'.At place (i + (Tree.forestTokens f).length)) : Followed place i (some f) s' o :=
  ⟨ho, hf, hs⟩

/-- A token is asked for at a place as it is by place. -/
theorem terminal_follows (k : TokenKind) {rule : Kind → RecognizerM (Option Tree)} :
    Follows place (step rule (tok k)) (ByPlace.step place (tok k)) := by
  intro i s a s' hs h
  obtain ⟨t, ht, rfl⟩ := step_terminal_ok h
  obtain ⟨hn, hstream⟩ := next_at hs
  rw [terminal_run, hn] at ht
  split at ht
  · rename_i hk
    cases ht
    refine .of_hit (ByPlace.step_token_hit hk) ?_ ⟨hstream, hs.limit, hs.spent⟩
    exact standAt_cons.2 ⟨rfl, standAt_nil⟩
  · rename_i hk
    cases ht
    refine .of_miss (ByPlace.step_token_miss hk) ⟨?_, hs.limit, hs.spent⟩
    exact stream_pushAll_at (standAt_cons.2 ⟨rfl, standAt_nil⟩) hstream

/-- Giving back what was read from a place on leads back to that place. -/
theorem unread_at {f : Forest} (hf : StandAt place i (Tree.forestTokens f))
    (hs : s.At place (i + (Tree.forestTokens f).length)) (h : unread f s = .ok () s') :
    s'.At place i := by
  rw [unread_run] at h
  split at h
  · rename_i hnil
    cases h
    rw [hnil] at hs
    exact hs
  · cases h
    exact ⟨stream_pushAll_at hf hs.stream, hs.limit, hs.spent⟩

/-- A production that is asked for answers as by place, and is a production. -/
def RuleFollows (place : Nat → Token) (rule : Kind → RecognizerM (Option Tree)) : Prop :=
  ∀ kind i s t s', s.At place i → rule kind s = .ok t s' →
    ∃ k, kind = .node k ∧
      Followed place i (t.map fun t => [t]) s' (ByPlace.rule place k i)

section

variable {rule : Kind → RecognizerM (Option Tree)}

mutual

/-- A single step does from every place what it does by place. -/
theorem step_follows (hr : RuleFollows place rule) :
    ∀ d, Follows place (step rule d) (ByPlace.step place d)
  | .terminal (.token k) => terminal_follows k
  | .terminal (.node k) => by
    intro i s a s' hs h
    obtain ⟨t, ht, -⟩ := step_terminal_ok h
    cases ht
  | .terminal .endMark => by
    intro i s a s' hs h
    obtain ⟨t, ht, -⟩ := step_terminal_ok h
    cases ht
  | .rule kind => by
    intro i s a s' hs h
    obtain ⟨t, ht, rfl⟩ := step_rule_ok h
    obtain ⟨k, rfl, hf⟩ := hr kind i s t s' hs ht
    rw [ByPlace.step_sub]
    exact hf
  | .optional ds => by
    intro i s a s' hs h
    obtain ⟨f, hf, rfl⟩ := step_optional_ok h
    obtain ⟨b, hb, ho, htokens, hs'⟩ :=
      stepsFrom_follows hr ds [] s f s' i standAt_nil hs hf
    cases b with
    | none =>
      subst hb
      exact .of_hit (ByPlace.step_optional_miss ho) standAt_nil hs'
    | some g =>
      subst hb
      exact .of_hit (ByPlace.step_optional_hit ho) htokens hs'

/-- The steps go on behind the trees in `done`, and on a miss back to where these begin. -/
theorem stepsFrom_follows (hr : RuleFollows place rule) :
    ∀ ds done s a s' i, StandAt place i (Tree.forestTokens done) →
      s.At place (i + (Tree.forestTokens done).length) →
      stepsFrom rule done ds s = .ok a s' →
      ∃ b : Option Forest, a = b.map (done ++ ·) ∧
        ByPlace.steps place ds (i + (Tree.forestTokens done).length) =
          some (b.map fun f =>
            (f, i + (Tree.forestTokens done).length + (Tree.forestTokens f).length)) ∧
        StandAt place i (matchedTokens a) ∧ s'.At place (i + (matchedTokens a).length)
  | [], done, s, a, s', i, hdone, hs, h => by
    obtain ⟨rfl, rfl⟩ := stepsFrom_nil_ok h
    refine ⟨some [], ?_, ByPlace.steps_nil, hdone, hs⟩
    rw [Option.map_some, List.append_nil]
  | d :: ds, done, s, a, s', i, hdone, hs, h => by
    rcases stepsFrom_cons_ok h with ⟨more, u, hf, h⟩ | ⟨u, hf, hu, rfl⟩
    · obtain ⟨hstep, hmore, hu⟩ := (step_follows hr d _ s _ u hs hf).hit
      have hboth : StandAt place i (Tree.forestTokens (done ++ more)) := by
        rw [Tree.forestTokens_append]
        exact standAt_append.2 ⟨hdone, hmore⟩
      have hlen : i + (Tree.forestTokens (done ++ more)).length =
          i + (Tree.forestTokens done).length + (Tree.forestTokens more).length := by
        rw [Tree.forestTokens_append, List.length_append]
        omega
      -- The other steps start from the same place, with what was just matched behind it.
      obtain ⟨b, rfl, ho, htokens, hs'⟩ :=
        stepsFrom_follows hr ds (done ++ more) u a s' i hboth (by rwa [hlen]) h
      rw [hlen] at ho
      refine ⟨b.map (more ++ ·), ?_, ?_, htokens, hs'⟩
      · cases b with
        | none => rfl
        | some f => rw [Option.map_some, Option.map_some, Option.map_some, List.append_assoc]
      · cases b with
        | none => exact ByPlace.steps_cons_miss_behind hstep ho
        | some f =>
          rw [ByPlace.steps_cons_hit hstep ho]
          simp only [Option.map_some, Tree.forestTokens_append, List.length_append]
          congr 3
          omega
    · obtain ⟨hstep, hu'⟩ := (step_follows hr d _ s _ u hs hf).miss
      exact ⟨none, rfl, ByPlace.steps_cons_miss hstep, standAt_nil, unread_at hdone hu' hu⟩

end

/-- All steps in order do what they do by place. -/
theorem sequence_follows (hr : RuleFollows place rule) (ds : List Designator) :
    Follows place (sequence rule ds) (ByPlace.steps place ds) := by
  intro i s a s' hs h
  obtain ⟨b, rfl, ho, htokens, hs'⟩ := stepsFrom_follows hr ds [] s a s' i standAt_nil hs h
  have hb : b.map ([] ++ ·) = b := by cases b <;> rfl
  rw [hb] at htokens hs' ⊢
  exact ⟨ho, htokens, hs'⟩

/-- Alternatives are tried at the same place, as each that misses leads back to it. -/
theorem choice_follows (hr : RuleFollows place rule) (alternatives : List (List Designator)) :
    Follows place (choice rule alternatives) (ByPlace.choice place alternatives) := by
  induction alternatives with
  | nil =>
    intro i s a s' hs h
    obtain ⟨rfl, rfl⟩ := choice_nil_ok h
    exact .of_miss ByPlace.choice_nil hs
  | cons ds rest ih =>
    intro i s a s' hs h
    rcases choice_cons_ok h with ⟨f, hf, rfl⟩ | ⟨u, hf, h⟩
    · obtain ⟨ho, htokens, hs'⟩ := (sequence_follows hr ds i s _ s' hs hf).hit
      exact .of_hit (ByPlace.choice_cons_hit ho) htokens hs'
    · obtain ⟨ho, hu⟩ := (sequence_follows hr ds i s _ u hs hf).miss
      rw [ByPlace.choice_cons_miss ho]
      exact ih i u a s' hu h

/-- The tails of a repetition are as many as match by place: nothing but a miss stops them. -/
theorem tails_follow (hr : RuleFollows place rule) {tail : List Designator} {bound : Nat}
    {f : Forest} (hs : s.At place i) (h : tails rule tail bound s = .ok f s') :
    ByPlace.tails place tail i = some (f, i + (Tree.forestTokens f).length) ∧
      StandAt place i (Tree.forestTokens f) ∧
      s'.At place (i + (Tree.forestTokens f).length) := by
  induction bound generalizing i s f with
  | zero => cases h
  | succ bound ih =>
    rcases tails_succ_ok h with ⟨hspent, -⟩ | ⟨_, hf, rfl⟩ | ⟨more, u, g, _, hf, hg, rfl⟩
    · exact absurd (hs.spent.symm.trans hspent) Bool.false_ne_true
    · obtain ⟨ho, hs'⟩ := (sequence_follows hr tail i s _ s' hs hf).miss
      exact ⟨ByPlace.tails_stop ho, standAt_nil, hs'⟩
    · obtain ⟨ho, hmore, hu⟩ := (sequence_follows hr tail i s _ u hs hf).hit
      obtain ⟨hg, htokens, hs'⟩ := ih hu hg
      rw [Tree.forestTokens_append, List.length_append, ← Nat.add_assoc]
      exact ⟨ByPlace.tails_more ho hg, standAt_append.2 ⟨hmore, htokens⟩, hs'⟩

/-- A repetition does what its head and its tails do by place. -/
theorem repetition_follows (hr : RuleFollows place rule) (head tail : List Designator) :
    Follows place (repetition rule head tail) (ByPlace.repetition place head tail) := by
  intro i s a s' hs h
  rcases repetition_ok h with ⟨hf, rfl⟩ | ⟨first, u, g, hf, hg, rfl⟩
  · obtain ⟨ho, hs'⟩ := (sequence_follows hr head i s _ s' hs hf).miss
    exact .of_miss (ByPlace.repetition_miss ho) hs'
  · obtain ⟨ho, hfirst, hu⟩ := (sequence_follows hr head i s _ u hs hf).hit
    obtain ⟨hg, htokens, hs'⟩ := tails_follow hr hu hg
    have hlen : i + (Tree.forestTokens (first ++ g)).length =
        i + (Tree.forestTokens first).length + (Tree.forestTokens g).length := by
      rw [Tree.forestTokens_append, List.length_append]
      omega
    refine .of_hit ?_ ?_ (by rwa [hlen])
    · rw [hlen]
      exact ByPlace.repetition_hit ho hg
    · rw [Tree.forestTokens_append]
      exact standAt_append.2 ⟨hfirst, htokens⟩

/-- **Right-hand sides do what they do by place** if the productions in them do. -/
theorem body_follows (hr : RuleFollows place rule) (b : Body) :
    Follows place (body rule b) (ByPlace.body place b) := by
  intro i s a s' hs h
  cases b with
  | choice alternatives =>
    rw [ByPlace.body_choice]
    exact choice_follows hr alternatives i s a s' hs h
  | repetition head tail =>
    rw [ByPlace.body_repetition]
    exact repetition_follows hr head tail i s a s' hs h

end

/-- Without a limit every production is opened. -/
theorem openRule_at {b : Bool} (hs : s.At place i) (h : openRule s = .ok b s') : b = true := by
  rw [openRule_run, hs.spent, hs.limit] at h
  cases h
  rfl

/-- **Productions do what they do by place**, under any bound on their nesting. -/
theorem ruleWithin_follows (bound : Nat) : RuleFollows place (ruleWithin bound) := by
  induction bound with
  | zero =>
    intro kind i s t s' _ h
    cases h
  | succ bound ih =>
    intro kind i s t s' hs h
    rcases ruleWithin_succ_ok h with ⟨ho, -⟩ | ⟨k, f, u, rfl, -, hf, rfl, rfl⟩
    · exact absurd (openRule_at hs ho) Bool.false_ne_true
    · have hs' : (opened (.node k) s).At place i := ⟨hs.stream, hs.limit, hs.spent⟩
      have hbody := body_follows ih (Grammar.body k) i _ f u hs' hf
      refine ⟨k, rfl, ?_⟩
      cases f with
      | none =>
        obtain ⟨ho, hu⟩ := hbody.miss
        exact .of_miss (ByPlace.rule_miss ho) ⟨hu.stream, hu.limit, hu.spent⟩
      | some children =>
        obtain ⟨ho, htokens, hu⟩ := hbody.hit
        have hone : Tree.forestTokens [.node k children] = Tree.forestTokens children := by
          rw [Tree.forestTokens_singleton, Tree.tokens_node]
        refine .of_hit ?_ ?_ ?_
        · rw [hone]
          exact ByPlace.rule_hit ho
        · rwa [hone]
        · rw [hone]
          exact ⟨hu.stream, hu.limit, hu.spent⟩

/-- Productions do what they do by place under the bound that is read off the line. -/
theorem rule_follows : RuleFollows place rule := by
  intro kind i s t s' hs h
  obtain ⟨_, _, hg, h⟩ := bind_ok h
  cases hg
  exact ruleWithin_follows _ kind i s t s' hs h

end RecognizerM
end BoolQuery
