/-
# Rejections tell the longest query

A line that is rejected may still begin with a query. Then the answer names the token behind the
longest such beginning, and only if there is none it says that nothing matched.
-/

import BoolQuery.Proofs.ByPlace.Calls
import BoolQuery.Proofs.Prefixes.Reach

namespace BoolQuery

open Recognizer Grammar ByPlace

/-- Tails that begin with whitespace are repeated only so often over the tokens of a line. -/
theorem tailsEnd_tokenAt (line : String) : TailsEnd (tokenAt line) := by
  intro ds i hds
  have hat : State.At (tokenAt line) i
      { State.start line none with reader := (Reader.ofString line).skip i } := by
    refine ⟨?_, rfl, rfl⟩
    show ((Reader.ofString line).skip i).stream = _
    rw [Reader.stream_skip, stream_ofString]
  obtain ⟨answer, s, h⟩ := (Call.repetition [] (tok .whitespace :: ds)).answers
    ⟨trivial, rfl, hds⟩ (Call.endsWithin_of_advances (Call.advances_of_token rfl [] ds)) ⟨i, hat⟩
  have hrep := (Call.run_follows _ i _ answer s hat h).outcome_eq
  simp only [Call.byPlace] at hrep
  rw [repetition_eq, steps_nil] at hrep
  change (tails (tokenAt line) (tok .whitespace :: ds) i).bind _ = _ at hrep
  obtain ⟨⟨f, j⟩, htails, hsome⟩ := Option.bind_eq_some_iff.1 hrep
  cases answer with
  | none => cases hsome
  | some g =>
    cases hsome
    exact ⟨_, _, htails, Nat.le_add_right ..⟩

/-- The token kinds begin the kinds of a line and are a query. -/
def QueryPrefix (ks : List Kind) (w : List TokenKind) : Prop :=
  w.map Kind.token <+: ks ∧ IsQuery w

/-- A beginning of a line that is a query is found, or a longer one. -/
theorem exists_reached {line : String} {w : List TokenKind}
    (h : QueryPrefix ((lex line).map Token.kind) w) :
    ∃ f j, ByPlace.rule (tokenAt line) .query 0 = some (some (f, j)) ∧ w.length ≤ j := by
  obtain ⟨⟨rest, hrest⟩, hquery⟩ := h
  obtain ⟨ts, us, hlex, hts, -⟩ := List.map_eq_append_iff.1 hrest.symm
  obtain ⟨t, hk, rfl, hd, hsettled⟩ := exists_settled hquery hts (spaced_of_lex hlex)
  obtain ⟨f, j, hrule, hj⟩ := hd.reached (tailsEnd_tokenAt line) hsettled .query 0 hk
    (standAt_of_lex_append hlex)
  refine ⟨f, j, hrule, ?_⟩
  rw [← List.length_map Kind.token, ← hts, List.length_map]
  omega

/-- **Rejections tell the longest query.** If no beginning of a rejected line is a query, then the
answer is that nothing matched. Otherwise it names the token behind the longest beginning that is
one, and this token is not the end of the line. -/
theorem recognize_longest_query {line : String} {why : Rejection}
    (h : recognize none line = .error why) :
    ((∀ w, ¬ QueryPrefix ((lex line).map Token.kind) w) →
      ∃ found span, why = .noMatch found span) ∧
    ((∃ w, QueryPrefix ((lex line).map Token.kind) w) →
      ∃ w t, QueryPrefix ((lex line).map Token.kind) w ∧
        (∀ v, QueryPrefix ((lex line).map Token.kind) v → v.length ≤ w.length) ∧
        (lex line)[w.length]? = some t ∧ t.kind ≠ .token .eof ∧
        why = .trailingInput t.kind t.text t.span) := by
  rcases recognize_byPlace line with
    ⟨root, hrule, hk, hd, hs, hanswer⟩ | ⟨hrule, found, span, hanswer⟩
  · obtain ⟨w, hw, hderives⟩ := hd.derives
    obtain ⟨us, hlex⟩ := exists_lex_append hs (hd.isZeroWidth (by rw [hk]; rfl))
    have hlen : root.tokens.length = w.length := by
      rw [← List.length_map Token.kind, hw, List.length_map]
    have hbegins : QueryPrefix ((lex line).map Token.kind) w := by
      rw [hk] at hderives
      refine ⟨?_, hderives⟩
      rw [hlex, List.map_append, hw]
      exact List.prefix_append ..
    refine ⟨fun hnone => absurd hbegins (hnone w), fun _ => ?_⟩
    rw [h] at hanswer
    dsimp only at hanswer
    split at hanswer
    · cases hanswer
    · rename_i heof
      cases hanswer
      refine ⟨w, tokenAt line root.tokens.length, hbegins, fun v hv => ?_, ?_, heof, rfl⟩
      · -- Matching by place has one answer, and that reaches as far as every beginning does.
        obtain ⟨f, j, hrule', hj⟩ := exists_reached hv
        rw [hrule] at hrule'
        cases hrule'
        rwa [← hlen]
      · rw [hlex, ← hlen, List.getElem?_append_right (Nat.le_refl _), Nat.sub_self]
        rfl
  · refine ⟨fun _ => ⟨found, span, Except.error.inj (h.symm.trans hanswer)⟩, ?_⟩
    rintro ⟨w, hw⟩
    obtain ⟨f, j, hrule', -⟩ := exists_reached hw
    rw [hrule] at hrule'
    cases hrule'

/-- In `a AND (b` the group is not closed, so the longest query is the word with the space behind
it, and the answer names the `AND`. -/
theorem recognize_longest_query_openGroup :
    recognize none "a AND (b" = .error (.trailingInput (.token .kwAnd) "AND" ⟨2, 3⟩) ∧
      ∃ w, QueryPrefix ((lex "a AND (b").map Token.kind) w ∧ w.length = 2 ∧
        ∀ v, QueryPrefix ((lex "a AND (b").map Token.kind) v → v.length ≤ 2 := by
  have h : recognize none "a AND (b" =
      .error (.trailingInput (.token .kwAnd) "AND" ⟨2, 3⟩) := by decide +kernel
  have hkinds : (lex "a AND (b").map Token.kind = [TokenKind.word, .whitespace, .kwAnd,
      .whitespace, .parenOpen, .word, .eof].map Kind.token := by decide +kernel
  have hword : QueryPrefix ((lex "a AND (b").map Token.kind) [.word] := by
    rw [hkinds]
    exact ⟨by decide, derives_briefest .query⟩
  obtain ⟨w, t, hw, hlongest, ht, -, hwhy⟩ := (recognize_longest_query h).2 ⟨_, hword⟩
  have hkind : ((lex "a AND (b").map Token.kind)[w.length]? = some (.token .kwAnd) := by
    rw [List.getElem?_map, ht, Option.map_some, ← (Rejection.trailingInput.inj hwhy).1]
  have hlen : w.length = 2 := by
    rw [hkinds] at hkind
    obtain ⟨hlt, hget⟩ := List.getElem?_eq_some_iff.1 hkind
    generalize w.length = n at hlt hget
    revert hget
    revert n
    decide
  exact ⟨h, w, hw, hlen, fun v hv => hlen ▸ hlongest v hv⟩

end BoolQuery
