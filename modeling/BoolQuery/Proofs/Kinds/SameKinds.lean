/-
# Lines with tokens of the same kinds

Recognition looks at the kinds of tokens and at nothing else. On two lines whose tokens have the
same kinds, the same trees are found but for texts and places, or the same reason is given at the
token of the same index, and an observer sees the same. The tokens at one place of both lines stand
for each other: both lines have as many of them, and which of two starts first is told by their
places, the last token standing at all places behind its own.
-/

import BoolQuery.Proofs.Kinds.Abreast
import BoolQuery.Proofs.Lexing.Places
import BoolQuery.Proofs.Outcome

namespace BoolQuery

open Recognizer RecognizerM

/-! ### Tokens at the same place -/

/-- The index of the last token of a line. -/
def lastIndex (line : String) : Nat := (lex line).length - 1

/-- At every place stands a token of the line, behind the last one it again. -/
theorem lex_getElem?_min (line : String) (i : Nat) :
    (lex line)[min i (lastIndex line)]? = some (tokenAt line i) := by
  have hlen := List.length_pos_iff.2 (lex_ne_nil line)
  unfold lastIndex
  rcases Nat.lt_or_ge i (lex line).length with hi | hi
  · rw [Nat.min_eq_left (by omega), tokenAt, List.getElem?_eq_getElem hi,
      List.getD_eq_getElem _ _ hi]
  · rw [Nat.min_eq_right (by omega), tokenAt, List.getD_eq_default _ _ hi,
      ← List.getLast?_eq_getElem?, List.getLast?_eq_getLast_of_ne_nil]

theorem tokenAt_min (line : String) (i : Nat) :
    tokenAt line (min i (lastIndex line)) = tokenAt line i := by
  have hmin := lex_getElem?_min line (min i (lastIndex line))
  rw [Nat.min_eq_left (Nat.min_le_right ..), lex_getElem?_min] at hmin
  exact (Option.some.inj hmin).symm

/-- **Which of two tokens of a line starts first is told by their places**, all places behind the
last token being its own. -/
theorem start_tokenAt_lt_iff (line : String) (i j : Nat) :
    (tokenAt line i).span.start < (tokenAt line j).span.start ↔
      min i (lastIndex line) < min j (lastIndex line) := by
  have hlast : ∀ k, min k (lastIndex line) < (lex line).length := by
    intro k
    have hlen := List.length_pos_iff.2 (lex_ne_nil line)
    unfold lastIndex
    omega
  rw [← tokenAt_min line i, ← tokenAt_min line j]
  constructor
  · intro hstart
    by_contra hge
    rcases Nat.lt_or_eq_of_le (Nat.le_of_not_lt hge) with hlt | heq
    · exact Nat.lt_asymm hstart (start_tokenAt_lt hlt (hlast i))
    · rw [heq] at hstart
      exact Nat.lt_irrefl _ hstart
  · exact fun hlt => start_tokenAt_lt hlt (hlast j)

/-- The tokens stand at the same place of the two lines. -/
def SamePlace (line line' : String) (a b : Token) : Prop :=
  ∃ i, a = tokenAt line i ∧ b = tokenAt line' i

/-- Attempts start alike on any two lines. -/
theorem start_alike (line line' : String) (limit : Option Nat) :
    State.Alike (SamePlace line line') (State.start line limit) (State.start line' limit) where
  stream n := by
    simp only [State.start, stream_ofString]
    exact ⟨n, rfl, rfl⟩
  depth := rfl
  limit := rfl
  spent := rfl
  furthest := .none
  events := rfl

/-- Answers for two lines with these tokens that say the same: trees that are the same but for texts
and places, or the same reason, at tokens of the same kind and index. -/
inductive SameAnswer (ts us : List Token) : Except Rejection Tree → Except Rejection Tree → Prop
  | accepted {t u : Tree} (h : t.bare = u.bare) : SameAnswer ts us (.ok t) (.ok u)
  | noMatch {i : Nat} {a b : Token} (ha : ts[i]? = some a) (hb : us[i]? = some b)
      (hkind : a.kind = b.kind) :
      SameAnswer ts us (.error (.noMatch a.kind a.span)) (.error (.noMatch b.kind b.span))
  | trailingInput {i : Nat} {a b : Token} (ha : ts[i]? = some a) (hb : us[i]? = some b)
      (hkind : a.kind = b.kind) :
      SameAnswer ts us (.error (.trailingInput a.kind a.text a.span))
        (.error (.trailingInput b.kind b.text b.span))
  | nestingLimit : SameAnswer ts us (.error .nestingLimit) (.error .nestingLimit)

/-! ### Lines with the same kinds -/

section

variable {line line' : String} (h : (lex line).map Token.kind = (lex line').map Token.kind)
include h

theorem lastIndex_eq : lastIndex line = lastIndex line' := by
  rw [lastIndex, lastIndex, ← List.length_map Token.kind, h, List.length_map]

/-- Tokens at the same place stand for each other. -/
theorem likeness_samePlace : Token.Likeness (SamePlace line line') where
  kind_eq := by
    rintro _ _ ⟨i, rfl, rfl⟩
    have hkinds := congrArg (·[min i (lastIndex line)]?) h
    simp only [List.getElem?_map] at hkinds
    rw [lex_getElem?_min, lastIndex_eq h, lex_getElem?_min] at hkinds
    exact Option.some.inj hkinds
  start_lt_iff := by
    rintro _ _ _ _ ⟨i, rfl, rfl⟩ ⟨j, rfl, rfl⟩
    rw [start_tokenAt_lt_iff, start_tokenAt_lt_iff, lastIndex_eq h]

/-- Tokens at the same place have the same index. -/
theorem SamePlace.exists_index {a b : Token} (hab : SamePlace line line' a b) :
    ∃ i : Nat, (lex line)[i]? = some a ∧ (lex line')[i]? = some b := by
  obtain ⟨i, rfl, rfl⟩ := hab
  refine ⟨min i (lastIndex line), lex_getElem?_min line i, ?_⟩
  rw [lastIndex_eq h]
  exact lex_getElem?_min line' i

/-- **Alike states give the same answer.** -/
theorem answer_of_alike {s t : State} (hst : State.Alike (SamePlace line line') s t)
    {root? root?' : Option Tree}
    (hroot : Option.Rel (fun t u => Forest.Alike (SamePlace line line') [t] [u]) root? root?') :
    SameAnswer (lex line) (lex line') (s.answer root?) (t.answer root?') := by
  have hnext : SamePlace line line' s.reader.next.1 t.reader.next.1 := hst.stream 0
  have hkind := (likeness_samePlace h).kind_eq hnext
  cases hs : s.spent with
  | true =>
    rw [State.answer_spent hs, State.answer_spent (hst.spent ▸ hs)]
    exact .nestingLimit
  | false =>
    cases hroot with
    | some hroot =>
      rw [State.answer_some hs, State.answer_some (hst.spent ▸ hs)]
      by_cases heof : s.reader.next.1.kind = .token .eof
      · rw [if_pos heof, if_pos (hkind ▸ heof)]
        exact .accepted (List.singleton_inj.1 hroot.bare)
      · rw [if_neg heof, if_neg (hkind ▸ heof)]
        obtain ⟨i, ha, hb⟩ := hnext.exists_index h
        exact .trailingInput ha hb hkind
    | none =>
      rw [State.answer_none hs, State.answer_none (hst.spent ▸ hs)]
      have hfound : SamePlace line line' (s.furthest.getD s.reader.next.1)
          (t.furthest.getD t.reader.next.1) := getD_alike hst.furthest hnext
      obtain ⟨i, ha, hb⟩ := hfound.exists_index h
      exact .noMatch ha hb ((likeness_samePlace h).kind_eq hfound)

end

/-- **Recognition depends on the kinds of the tokens only.** Under every limit two lines whose
tokens have the same kinds get the same answer, and an observer sees the same events, but for texts
and places. -/
theorem recognizeTraced_of_kinds {line line' : String}
    (h : (lex line).map Token.kind = (lex line').map Token.kind) (limit : Option Nat) :
    SameAnswer (lex line) (lex line') (recognizeTraced limit line).1
        (recognizeTraced limit line').1 ∧
      (recognizeTraced limit line).2.map Event.bare =
        (recognizeTraced limit line').2.map Event.bare := by
  obtain ⟨root?, s, hrun, hanswer⟩ := exists_recognizeTraced limit line
  obtain ⟨root?', t, hrun', hanswer'⟩ := exists_recognizeTraced limit line'
  obtain ⟨hroot, hst⟩ := rule_abreast (likeness_samePlace h) (.node .query) _ _ _ _ _ _
    (start_alike line line' limit) hrun hrun'
  rw [hanswer, hanswer']
  exact ⟨answer_of_alike h hst hroot, hst.events⟩

/-- Both lines stop being queries at their third token, the one at byte 2 and the other at byte
5. -/
theorem recognizeTraced_of_kinds_keyword :
    (lex "( AND a").map Token.kind = (lex "( \t  AND ß").map Token.kind ∧
      SameAnswer (lex "( AND a") (lex "( \t  AND ß") (.error (.noMatch (.token .kwAnd) ⟨2, 3⟩))
        (.error (.noMatch (.token .kwAnd) ⟨5, 3⟩)) ∧
      (recognizeTraced none "( AND a").2.map Event.bare =
        (recognizeTraced none "( \t  AND ß").2.map Event.bare := by
  have h : (lex "( AND a").map Token.kind = (lex "( \t  AND ß").map Token.kind := by
    decide +kernel
  have hanswer : (recognizeTraced none "( AND a").1 =
      .error (.noMatch (.token .kwAnd) ⟨2, 3⟩) := by decide +kernel
  have hanswer' : (recognizeTraced none "( \t  AND ß").1 =
      .error (.noMatch (.token .kwAnd) ⟨5, 3⟩) := by decide +kernel
  obtain ⟨hsame, hevents⟩ := recognizeTraced_of_kinds h none
  rw [hanswer, hanswer'] at hsame
  exact ⟨h, hsame, hevents⟩

end BoolQuery
