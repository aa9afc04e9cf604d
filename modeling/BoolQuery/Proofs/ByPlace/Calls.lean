/-
# Calls answered by place

Every call of an unlimited attempt comes to what the same call comes to by place, and is sure to
come to it if no tail of a repetition can match without taking a token of some width.
-/

import BoolQuery.Proofs.ByPlace.Agreement

namespace BoolQuery
namespace Recognizer

open RecognizerM Grammar Reader

namespace Call

/-- The answer to a call, if it is answered. -/
def answer? (c : Call) (s : State) : Option (Option Forest) :=
  match c.run s with
  | .ok answer _ => some answer
  | .error .. => none

/-- A run with an answer answers the call. -/
theorem answer?_eq {c : Call} {s s' : State} {answer : Option Forest}
    (h : c.run s = .ok answer s') : c.answer? s = some answer := by
  rw [answer?, h]

/-- What a call comes to by place. -/
noncomputable def byPlace (place : Nat → Token) : Call → Nat → Option ByPlace.Outcome
  | sequence ds => ByPlace.steps place ds
  | choice alternatives => ByPlace.choice place alternatives
  | optional ds => ByPlace.step place (.optional ds)
  | repetition head tail => ByPlace.repetition place head tail
  | rule kind => ByPlace.step place (.rule kind)
  | terminal kind => ByPlace.step place (.terminal kind)

/-- The tail of a repetition takes a token with a width wherever it matches. -/
def Advances (place : Nat → Token) : Call → Prop
  | repetition _ tail => ∀ i f j, ByPlace.steps place tail i = some (some (f, j)) →
      Token.wide (Tree.forestTokens f) ≠ []
  | _ => True

variable {place : Nat → Token}

/-- An optional call is a choice of its steps and of none, and does what the optional step does by
place. -/
theorem optional_follows (ds : List Designator) :
    Follows place (run (optional ds)) (ByPlace.step place (.optional ds)) := by
  intro i s a s' hs h
  obtain ⟨f, u, hf, h⟩ := bind_ok (x := RecognizerM.optional RecognizerM.rule ds) h
  cases h
  obtain ⟨b, hb, rfl⟩ := optional_ok hf
  rcases choice_cons_ok hb with ⟨g, hg, rfl⟩ | ⟨v, hv, hb⟩
  · obtain ⟨ho, htokens, hs'⟩ := (sequence_follows rule_follows ds i s _ s' hs hg).hit
    exact .of_hit (ByPlace.step_optional_hit ho) htokens hs'
  · obtain ⟨ho, hv⟩ := (sequence_follows rule_follows ds i s _ v hs hv).miss
    rcases choice_cons_ok hb with ⟨g, hg, rfl⟩ | ⟨w, hw, -⟩
    · obtain ⟨hg, rfl⟩ := stepsFrom_nil_ok hg
      cases hg
      exact .of_hit (ByPlace.step_optional_miss ho) standAt_nil hv
    · exact absurd (stepsFrom_nil_ok hw).1 nofun

/-- **Every call does what it does by place.** -/
theorem run_follows (c : Call) : Follows place c.run (c.byPlace place) := by
  cases c with
  | sequence ds => exact sequence_follows rule_follows ds
  | choice alternatives => exact choice_follows rule_follows alternatives
  | optional ds => exact optional_follows ds
  | repetition head tail => exact repetition_follows rule_follows head tail
  | rule kind => exact step_follows rule_follows (.rule kind)
  | terminal kind => exact step_follows rule_follows (.terminal kind)

/-- A repetition whose tail advances by place ends from every place. -/
theorem endsWithin_of_advances {c : Call} (h : c.Advances place) :
    c.EndsWithin fun s => ∃ i, s.At place i := by
  cases c with
  | repetition head tail =>
    refine ⟨?_, ?_⟩
    · rintro s f s' ⟨i, hs⟩ hf
      exact ⟨_, (sequence_follows rule_follows head i s _ s' hs hf).state⟩
    · rintro s f s' ⟨i, hs⟩ hf
      obtain ⟨ho, -, hs'⟩ := (sequence_follows rule_follows tail i s _ s' hs hf).hit
      exact ⟨h i f _ ho, _, hs'⟩
  | _ => trivial

/-- A tail that begins with a token of some width advances. -/
theorem advances_of_token {k : TokenKind} (hk : (Kind.token k).isZeroWidth = false)
    (head ds : List Designator) : Advances place (.repetition head (tok k :: ds)) := by
  intro i f j h
  obtain ⟨hkind, g, rfl⟩ := ByPlace.first_of_steps h
  have hwide : Token.wide [place i] = [place i] := by simp [Token.wide, hkind, hk]
  rw [Tree.forestTokens_cons, Token.wide_append, Tree.tokens_leaf, hwide]
  exact List.cons_ne_nil _ _

/-- **Reading with giving back is matching by place.** On every line, after any number of tokens was
read, an unlimited attempt answers every well-formed call, and its answer is what the call comes to
by place over the tokens that `lex` lists: the same failure or the same trees, up to the place from
which on the tokens are still to come. -/
theorem run_eq_byPlace (line : String) (i : Nat) (c : Call) (hc : c.WellFormed)
    (hadv : c.Advances (tokenAt line)) {s : State}
    (hs : s.reader = (Reader.ofString line).skip i) (hlimit : s.limit = none)
    (hspent : s.spent = false) :
    ∃ answer s', c.run s = .ok answer s' ∧
      c.byPlace (tokenAt line) i =
        some (answer.map fun f => (f, i + (Tree.forestTokens f).length)) ∧
      s'.reader.stream = fun n => tokenAt line (i + (matchedTokens answer).length + n) := by
  have hat : s.At (tokenAt line) i := by
    refine ⟨?_, hlimit, hspent⟩
    rw [hs, stream_skip, stream_ofString]
  obtain ⟨answer, s', h⟩ := c.answers hc (endsWithin_of_advances hadv) ⟨i, hat⟩
  have hf := c.run_follows i s answer s' hat h
  exact ⟨answer, s', h, hf.outcome_eq, hf.state.stream⟩

/-- An attempt on `x (a OR b` that stands behind its parenthesis. -/
def insideGroup : State :=
  { State.start "x (a OR b" none with reader := (Reader.ofString "x (a OR b").skip 3 }

/-- The start of an `OrTerm`, and what may follow it. -/
def alternation : Call :=
  repetition [sub .andTerm] [tok .whitespace, tok .kwOr, tok .whitespace, sub .andTerm]

/-- The trees of `a OR b` behind `x (`. -/
def eitherWord : Forest :=
  [.node .andTerm [.ofWord ⟨TokenKind.word, "a", ⟨3, 1⟩⟩],
    .leaf ⟨TokenKind.whitespace, " ", ⟨4, 1⟩⟩, .leaf ⟨TokenKind.kwOr, "OR", ⟨5, 2⟩⟩,
    .leaf ⟨TokenKind.whitespace, " ", ⟨7, 1⟩⟩,
    .node .andTerm [.ofWord ⟨TokenKind.word, "b", ⟨8, 1⟩⟩]]

/-- Inside of the open group, `a OR b` is matched by place as it is by reading. -/
theorem run_eq_byPlace_alternation :
    ∃ s', alternation.run insideGroup = .ok (some eitherWord) s' ∧
      alternation.byPlace (tokenAt "x (a OR b") 3 = some (some (eitherWord, 8)) := by
  have hanswer : alternation.answer? insideGroup = some (some eitherWord) := by decide +kernel
  obtain ⟨answer, s', h, hp, -⟩ := run_eq_byPlace "x (a OR b" 3 alternation
    ⟨⟨rfl, trivial⟩, rfl, rfl, rfl, rfl, trivial⟩ (advances_of_token rfl _ _)
    (s := insideGroup) rfl rfl rfl
  obtain rfl : answer = some eitherWord := Option.some.inj ((answer?_eq h).symm.trans hanswer)
  exact ⟨s', h, hp⟩

end Call

end Recognizer
end BoolQuery
