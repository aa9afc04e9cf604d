/-
# Calls of an attempt

An attempt can be asked for a match in six ways, from whatever state it is in:

| call | answer |
| --- | --- |
| `sequence` | the trees of all steps in order |
| `choice` | the trees of the first alternative that matches |
| `optional` | the trees of the steps, or none |
| `repetition` | the trees of the head and of as many tails as match |
| `rule` | the node of a production |
| `terminal` | one token |

Whatever is asked, an answer takes its tokens off the tokens to come and a failure leaves these as
they were; the limit and the spent attempt are no exception.
-/

import BoolQuery.Recognizer.Totality

namespace BoolQuery

namespace Grammar

mutual

/-- A step asks for tokens by the kinds of tokens, and for productions by the kinds of nodes. -/
def Designator.WellFormed : Designator → Prop
  | .terminal kind => kind.isToken = true
  | .rule kind => kind.isNode = true
  | .optional steps => AllWellFormed steps

/-- All of the steps ask for tokens and productions by the right kinds. -/
def AllWellFormed : List Designator → Prop
  | [] => True
  | d :: ds => d.WellFormed ∧ AllWellFormed ds

end

end Grammar

namespace Recognizer

open RecognizerM Grammar

/-- What an attempt can be asked to match. -/
inductive Call
  | sequence (steps : List Designator)
  | choice (alternatives : List (List Designator))
  | optional (steps : List Designator)
  | repetition (head tail : List Designator)
  | rule (kind : Kind)
  | terminal (kind : Kind)

namespace Call

/-- Asks an attempt. The answer is a forest: a production answers with one node, a terminal with
one token. -/
def run : Call → RecognizerM (Option Forest)
  | sequence steps => RecognizerM.sequence RecognizerM.rule steps
  | choice alternatives => RecognizerM.choice RecognizerM.rule alternatives
  | optional steps => some <$> RecognizerM.optional RecognizerM.rule steps
  | repetition head tail => RecognizerM.repetition RecognizerM.rule head tail
  | rule kind => step RecognizerM.rule (.rule kind)
  | terminal kind => step RecognizerM.rule (.terminal kind)

/-- Tokens are asked for by the kinds of tokens, productions by the kinds of nodes. -/
def WellFormed : Call → Prop
  | sequence steps => AllWellFormed steps
  | choice alternatives => ∀ steps ∈ alternatives, AllWellFormed steps
  | optional steps => AllWellFormed steps
  | repetition head tail => AllWellFormed head ∧ AllWellFormed tail
  | rule kind => kind.isNode = true
  | terminal kind => kind.isToken = true

/-- Through every view of the tokens to come: what a call answers with is taken off them. -/
theorem conserves {β : Type} (v : Reader.View β) (c : Call) :
    RecognizerM.Conserves v matchedTokens c.run := by
  cases c with
  | sequence steps => exact sequence_conserves rule_conserves steps
  | choice alternatives => exact choice_conserves rule_conserves alternatives
  | optional steps =>
    intro s a s' h
    obtain ⟨f, u, hf, h⟩ := bind_ok (x := RecognizerM.optional RecognizerM.rule steps) h
    cases h
    exact optional_conserves rule_conserves steps s f s' hf
  | repetition head tail => exact repetition_conserves rule_conserves head tail
  | rule kind => exact step_conserves rule_conserves (.rule kind)
  | terminal kind => exact step_conserves rule_conserves (.terminal kind)

/-- **A failure leaves no trace in the tokens to come, and an answer takes exactly its own tokens.**
From every state — whatever was given back to the reader, whatever the limit, the attempt spent or
not — a call that fails leaves the endless stream of tokens to come as it was; if it answers with a
forest, the tokens of the forest and then the stream after the call are the stream before it.
Either way as many productions are open as before. -/
theorem run_conserves (c : Call) {s s' : State} {answer : Option Forest}
    (h : c.run s = .ok answer s') :
    (answer = none → s'.reader.stream = s.reader.stream) ∧
      (∀ f, answer = some f →
        Reader.inFront (Tree.forestTokens f) s'.reader.stream = s.reader.stream) ∧
      s'.depth = s.depth := by
  obtain ⟨hd, hs⟩ := conserves Reader.streamView c s answer s' h
  refine ⟨?_, ?_, hd⟩
  · rintro rfl
    exact hs
  · rintro f rfl
    exact hs

/-- A room for three more productions on ` b)`, with a parenthesis and a word given back. -/
def sample : State where
  reader := ⟨[⟨TokenKind.parenOpen, "(", ⟨0, 1⟩⟩, ⟨TokenKind.word, "a", ⟨1, 1⟩⟩],
    [' ', 'b', ')'], 2⟩
  depth := 1
  limit := some 4
  spent := false
  furthest := none
  events := #[]

/-- A query in parentheses. -/
def enclosed : Call := sequence [tok .parenOpen, sub .query, tok .parenClose]

/-- The limit trips three productions below a group: its parenthesis is given back, and the
productions that were open are closed. -/
theorem run_conserves_spent :
    ∃ s', enclosed.run sample = .ok none s' ∧ s'.spent = true ∧
      s'.reader.stream = sample.reader.stream ∧ s'.depth = 1 := by
  obtain ⟨s', h, hspent⟩ : ∃ s', enclosed.run sample = .ok none s' ∧ s'.spent = true :=
    ⟨_, rfl, rfl⟩
  obtain ⟨hmiss, -, hdepth⟩ := run_conserves enclosed h
  exact ⟨s', h, hspent, hmiss rfl, hdepth⟩

/-! ### Every well-formed call is answered -/

mutual

theorem admits_of_wellFormed (b : Nat) :
    ∀ d : Designator, d.WellFormed → Admits RecognizerM.rule b d
  | .terminal kind, h => by
    rw [Designator.WellFormed] at h
    rw [Admits]
    cases kind with
    | token k => exact ⟨k, rfl⟩
    | node k => cases h
    | endMark => cases h
  | .rule kind, h => by
    rw [Designator.WellFormed] at h
    rw [Admits]
    cases kind with
    | token k => cases h
    | node k => exact fun s _ => rule_answers k s
    | endMark => cases h
  | .optional ds, h => by
    rw [Designator.WellFormed] at h
    rw [Admits]
    exact admitsAll_of_wellFormed b ds h

theorem admitsAll_of_wellFormed (b : Nat) :
    ∀ ds : List Designator, AllWellFormed ds → AdmitsAll RecognizerM.rule b ds
  | [], _ => by
    rw [AdmitsAll]
    trivial
  | d :: ds, h => by
    rw [AllWellFormed] at h
    rw [AdmitsAll]
    exact ⟨admits_of_wellFormed b d h.1, fun _ => admitsAll_of_wellFormed _ ds h.2⟩

end

/-- A repetition comes to an end from states with a property: its head keeps the property, and its
tail keeps it too and reads a token with a width whenever it matches. -/
def EndsWithin (P : State → Prop) : Call → Prop
  | repetition head tail =>
    (∀ s f s', P s → RecognizerM.sequence RecognizerM.rule head s = .ok (some f) s' → P s') ∧
      ReadsWithin P RecognizerM.rule tail
  | _ => True

/-- **A well-formed call is answered**, a repetition if it comes to an end. -/
theorem answers {P : State → Prop} (c : Call) (hc : c.WellFormed) (he : c.EndsWithin P)
    {s : State} (hs : P s) : Answers c.run s := by
  cases c with
  | sequence ds =>
    exact sequence_answers rule_conserves (admitsAll_of_wellFormed _ ds hc) (Nat.le_refl _)
  | choice alternatives =>
    refine choice_answers rule_conserves (fun ds hds => ?_) (Nat.le_refl _)
    exact admitsAll_of_wellFormed _ ds (hc ds hds)
  | optional ds =>
    have hd : ∀ es ∈ [ds, []], AdmitsAll RecognizerM.rule (groups s) es := by
      intro es hes
      rw [List.mem_cons, List.mem_singleton] at hes
      rcases hes with rfl | rfl
      · exact admitsAll_of_wellFormed _ _ hc
      · exact admitsAll_of_wellFormed _ [] trivial
    have hopt : Answers (RecognizerM.optional RecognizerM.rule ds) s := by
      unfold RecognizerM.optional
      exact (choice_answers rule_conserves hd (Nat.le_refl _)).bind fun a u _ => .pure _ u
    exact hopt.bind fun f u _ => .pure _ u
  | repetition head tail =>
    refine repetition_answers (P := P) rule_conserves (admitsAll_of_wellFormed _ head hc.1)
      (admitsAll_of_wellFormed _ tail hc.2) (fun f s' h => he.1 s f s' hs h) he.2 (Nat.le_refl _)
  | rule kind =>
    exact step_answers rule_conserves (.rule kind) (groups s) s
      (admits_of_wellFormed _ (.rule kind) hc) (Nat.le_refl _)
  | terminal kind =>
    exact step_answers rule_conserves (.terminal kind) (groups s) s
      (admits_of_wellFormed _ (.terminal kind) hc) (Nat.le_refl _)

end Call

end Recognizer
end BoolQuery
