/-
# What a recognized line is

Without a limit, a line is recognized with a tree if and only if the tree is a settled derivation of
`Query` over all of its tokens but the last, which is `Eof` (`recognize_eq_ok_iff`). One direction
is soundness of the answers, the other says that the greedy match by place finds every settled tree;
and as it finds one tree only, the settled tree is unique. So the lines that are recognized are
those whose kinds the grammar derives.
-/

import BoolQuery.Proofs.ByPlace.Agreement
import BoolQuery.Proofs.Grammar.Completeness
import BoolQuery.Proofs.Grammar.Soundness
import BoolQuery.Proofs.Outcome

namespace BoolQuery

open Recognizer RecognizerM Grammar Reader

theorem at_start (line : String) : (State.start line none).At (tokenAt line) 0 := by
  refine ⟨?_, rfl, rfl⟩
  funext n
  rw [Nat.zero_add]
  exact congrFun (stream_ofString line) n

/-- `Query` answers at the start of a line, its answer is what it comes to by place, and the answer
for the line follows from it. -/
theorem exists_answer (line : String) :
    ∃ root? s, RecognizerM.rule (.node .query) (State.start line none) = .ok root? s ∧
      recognizeTraced none line = (s.answer root?, s.events.toList) ∧
      Followed (tokenAt line) 0 (root?.map fun t => [t]) s
        (ByPlace.rule (tokenAt line) .query 0) := by
  obtain ⟨root?, s, h, htraced⟩ := exists_recognizeTraced none line
  obtain ⟨k, hk, hf⟩ := rule_follows (.node .query) 0 _ root? s (at_start line) h
  cases hk
  exact ⟨root?, s, h, htraced, hf⟩

/-- **The answer for a line is told by what `Query` comes to by place.** Where it matches the next
token decides. -/
theorem recognize_byPlace (line : String) :
    (∃ root, ByPlace.rule (tokenAt line) .query 0 = some (some ([root], root.tokens.length)) ∧
      root.kind = .node .query ∧ root.IsDerivation ∧ StandAt (tokenAt line) 0 root.tokens ∧
      recognize none line =
        let next := tokenAt line root.tokens.length
        if next.kind = .token .eof then .ok root
        else .error (.trailingInput next.kind next.text next.span)) ∨
    (ByPlace.rule (tokenAt line) .query 0 = some none ∧
      ∃ found span, recognize none line = .error (.noMatch found span)) := by
  obtain ⟨root?, s, hrule, htraced, hf⟩ := exists_answer line
  rw [recognize, htraced]
  cases root? with
  | some root =>
    obtain ⟨houtcome, hstand, hs⟩ := hf.hit
    rw [Tree.forestTokens_singleton, Nat.zero_add] at houtcome hs
    rw [Tree.forestTokens_singleton] at hstand
    obtain ⟨hkind, hd⟩ := rule_derives (.node .query) _ root s hrule
    refine .inl ⟨root, houtcome, hkind, hd, hstand, ?_⟩
    rw [State.answer_some hs.spent, (next_at hs).1]
  | none =>
    obtain ⟨houtcome, hs⟩ := hf.miss
    exact .inr ⟨houtcome, _, _, State.answer_none hs.spent⟩

/-- The tokens of a derivation that is followed by `Eof` are all tokens of the line but the last. -/
theorem lex_eq_of_standAt {line : String} {root : Tree} (hd : root.IsDerivation)
    (hk : root.kind = .node .query) (hs : StandAt (tokenAt line) 0 root.tokens)
    (heof : (tokenAt line root.tokens.length).kind = .token .eof) :
    lex line = root.tokens ++ [tokenAt line root.tokens.length] := by
  have hwide := hd.isZeroWidth (by rw [hk]; rfl)
  have hstream := hs.inFront_eq
  simp only [Nat.zero_add] at hstream
  have hlast : (tokenAt line (root.tokens.length + 0)).kind.isZeroWidth = true := by
    rw [Nat.add_zero, heof]
    rfl
  exact drain_of_stream ((stream_ofString line).trans hstream.symm) hwide hlast

/-- A line is recognized with a derivation tree of `Query` over its tokens up to `Eof`. -/
theorem isDerivation_of_recognize {line : String} {root : Tree}
    (h : recognize none line = .ok root) :
    root.kind = .node .query ∧ root.IsDerivation ∧
      ∃ t, lex line = root.tokens ++ [t] ∧ t.kind = .token .eof := by
  rcases recognize_byPlace line with ⟨found, -, hk, hd, hs, hanswer⟩ | ⟨-, _, _, hanswer⟩
  · rw [h] at hanswer
    dsimp only at hanswer
    split at hanswer
    · rename_i heof
      cases hanswer
      exact ⟨hk, hd, _, lex_eq_of_standAt hd hk hs heof, heof⟩
    · cases hanswer
  · rw [h] at hanswer
    cases hanswer

/-- A line is recognized with every settled derivation tree of `Query` over its tokens up to
`Eof`. -/
theorem recognize_of_settled {line : String} {root : Tree} {t : Token}
    (hk : root.kind = .node .query) (hd : root.IsDerivation) (hsettled : root.Settled)
    (hlex : lex line = root.tokens ++ [t]) (heof : t.kind = .token .eof) :
    recognize none line = .ok root := by
  obtain ⟨hs, hlast⟩ := standAt_of_lex hlex
  have hends : ByPlace.EndsAt (tokenAt line) .query (0 + root.tokens.length) := by
    refine ByPlace.endsAt_of_closed (.inr ?_)
    rw [Nat.zero_add, hlast, heof]
  have hfound := hd.met hsettled .query 0 hk hs hends
  rw [Nat.zero_add] at hfound
  rcases recognize_byPlace line with ⟨found, hrule, -, -, -, hanswer⟩ | ⟨hrule, -⟩
  · rw [hrule] at hfound
    cases hfound
    rw [hanswer]
    dsimp only
    rw [if_pos (by rw [hlast, heof])]
  · rw [hrule] at hfound
    cases hfound

/-- **A line is recognized with a tree if and only if the tree is a settled derivation** of `Query`
over its tokens up to `Eof`. -/
theorem recognize_eq_ok_iff {line : String} {root : Tree} :
    recognize none line = .ok root ↔
      root.kind = .node .query ∧ root.IsDerivation ∧ root.Settled ∧
        ∃ t, lex line = root.tokens ++ [t] ∧ t.kind = .token .eof := by
  constructor
  · intro h
    obtain ⟨hk, hd, t, hlex, heof⟩ := isDerivation_of_recognize h
    refine ⟨hk, hd, ?_, t, hlex, heof⟩
    -- The line is also recognized with a settled tree over the same tokens.
    obtain ⟨w, hw, hderives⟩ := hd.derives
    obtain ⟨u, hu, htokens, hdu, hsettled⟩ := exists_settled hderives hw (spaced_of_lex hlex)
    have hother := recognize_of_settled (hu.trans hk) hdu hsettled (by rw [htokens, hlex]) heof
    rw [h] at hother
    obtain rfl := Except.ok.inj hother
    exact hsettled
  · rintro ⟨hk, hd, hsettled, t, hlex, heof⟩
    exact recognize_of_settled hk hd hsettled hlex heof

/-- **The lines that are recognized are those that the grammar derives**, as a relation without any
order among alternatives: a line is recognized without limit if and only if its tokens end in `Eof`
and the kinds before it are derived from `Query`. -/
theorem recognizes_iff_isQuery (line : String) :
    (∃ root, recognize none line = .ok root) ↔
      ∃ w : List TokenKind,
        (lex line).map Token.kind = w.map Kind.token ++ [.token .eof] ∧ IsQuery w := by
  constructor
  · rintro ⟨root, h⟩
    obtain ⟨hk, hd, t, hlex, heof⟩ := isDerivation_of_recognize h
    obtain ⟨w, hw, hderives⟩ := hd.derives
    refine ⟨w, ?_, ?_⟩
    · rw [hlex, List.map_append, hw, List.map_singleton, heof]
    · rwa [hk] at hderives
  · rintro ⟨w, hw, hquery⟩
    obtain ⟨ts, us, hlex, hts, hus⟩ := List.map_eq_append_iff.1 hw
    obtain ⟨t, rfl, heof⟩ := List.map_eq_singleton_iff.1 hus
    obtain ⟨root, hk, rfl, hd, hsettled⟩ := exists_settled hquery hts (spaced_of_lex hlex)
    exact ⟨root, recognize_of_settled hk hd hsettled hlex heof⟩

/-- **The tree of a recognized line is its only settled derivation.** It is a derivation tree of
`Query`, its tokens are those of the line without the last one, `Eof`, in every group the whitespace
behind the opening parenthesis is the group's and that before the closing parenthesis the query's,
and no other derivation tree of `Query` over these tokens is so. -/
theorem recognize_canonical {line : String} {root : Tree} (h : recognize none line = .ok root) :
    root.IsDerivation ∧ root.kind = .node .query ∧
      (∃ t, lex line = root.tokens ++ [t] ∧ t.kind = .token .eof) ∧ root.Settled ∧
      ∀ t : Tree, t.IsDerivation → t.kind = .node .query → t.tokens = root.tokens → t.Settled →
        t = root := by
  obtain ⟨hk, hd, hsettled, u, hlex, heof⟩ := recognize_eq_ok_iff.1 h
  refine ⟨hd, hk, ⟨u, hlex, heof⟩, hsettled, fun t hdt hkt htokens hst => ?_⟩
  have hother := recognize_of_settled hkt hdt hst (by rw [htokens, hlex]) heof
  rw [h] at hother
  exact (Except.ok.inj hother).symm

/-- The tree of `( a )`: the space in front of the word is the group's, the one behind it the inner
query's. -/
def spacedGroup : Tree :=
  .node .query [.node .orTerm [.node .andTerm [.node .term
    [.leaf ⟨TokenKind.parenOpen, "(", ⟨0, 1⟩⟩, .leaf ⟨TokenKind.whitespace, " ", ⟨1, 1⟩⟩,
      .node .query [.node .orTerm [.node .andTerm [.ofWord ⟨TokenKind.word, "a", ⟨2, 1⟩⟩]],
        .leaf ⟨TokenKind.whitespace, " ", ⟨3, 1⟩⟩],
      .leaf ⟨TokenKind.parenClose, ")", ⟨4, 1⟩⟩]]]]

/-- The spaces of `( a )` are taken in the settled way, and that is the only settled way. -/
theorem recognize_canonical_spacedGroup :
    recognize none "( a )" = .ok spacedGroup ∧ spacedGroup.Settled ∧
      ∀ t : Tree, t.IsDerivation → t.kind = .node .query → t.tokens = spacedGroup.tokens →
        t.Settled → t = spacedGroup := by
  have h : recognize none "( a )" = .ok spacedGroup := by decide +kernel
  exact ⟨h, (recognize_canonical h).2.2.2⟩

end BoolQuery
