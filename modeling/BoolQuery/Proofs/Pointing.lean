/-
# Rejections point at tokens

A rejection that points somewhere in a line points at one of its tokens, however long ago in the
attempt that token was read: the answer tells its kind, its span and, behind a query, its text. What
a snippet marks for it is a piece of the line between characters:

| token | marked |
| --- | --- |
| with a width | the token |
| `Unknown` | the character that begins no token, behind all that was cut into tokens |
| `Eof` | nothing, at the end of the line |
-/

import BoolQuery.Proofs.ByPlace.CourseOfRun
import BoolQuery.Proofs.Lexing.Cut
import BoolQuery.Proofs.Nesting.Limit
import BoolQuery.Report.Explanation

namespace BoolQuery

open Recognizer ByPlace

/-! ### Which token it is -/

/-- The furthest of the tokens at some places is at one of them. -/
theorem exists_of_furthestAt {place : Nat → Token} {is : List Nat} {t : Token}
    (h : furthestAt place is = some t) : ∃ i, place i = t := by
  have hfold : ∀ (is : List Nat) (seen : Option Token), (∀ u ∈ seen, ∃ i, place i = u) →
      ∀ u ∈ is.foldl (fun seen i => further seen (place i)) seen, ∃ i, place i = u := by
    intro is
    induction is with
    | nil => exact fun seen hseen => hseen
    | cons i is ih =>
      intro seen hseen
      refine ih (further seen (place i)) fun u hu => ?_
      unfold further at hu
      split at hu
      · exact ⟨i, Option.some.inj hu⟩
      · exact hseen u hu
  exact hfold is none nofun t h

theorem tokenAt_mem (line : String) (i : Nat) : tokenAt line i ∈ lex line := by
  rw [tokenAt, List.getD_eq_getElem?_getD]
  cases hi : (lex line)[i]? with
  | none => exact List.getLast_mem (lex_ne_nil line)
  | some t => exact List.mem_of_getElem? hi

/-- A rejection without limit is at a token of the line. -/
theorem exists_mem_lex_of_rejection {line : String} {why : Rejection}
    (h : recognize none line = .error why) : ∃ t ∈ lex line,
      why = .noMatch t.kind t.span ∨ why = .trailingInput t.kind t.text t.span := by
  obtain ⟨ns, -, ⟨root, -, hanswer⟩ | ⟨-, hanswer⟩⟩ := exists_course line
  · rw [h] at hanswer
    dsimp only at hanswer
    split at hanswer
    · cases hanswer
    · exact ⟨_, tokenAt_mem line _, .inr (Except.error.inj hanswer)⟩
  · rw [h] at hanswer
    refine ⟨_, ?_, .inl (Except.error.inj hanswer)⟩
    cases hfound : furthestAt (tokenAt line) (Note.mismatches ns) with
    | none => exact tokenAt_mem line 0
    | some t =>
      obtain ⟨i, rfl⟩ := exists_of_furthestAt hfound
      exact tokenAt_mem line i

/-- A rejection that points into the line is the one without limit. -/
theorem recognize_of_pointing {limit : Option Nat} {line : String} {why : Rejection} {span : Span}
    (h : recognize limit line = .error why) (hspan : why.span? = some span) :
    recognize none line = .error why := by
  cases limit with
  | none => exact h
  | some limit =>
    rcases Nat.lt_or_ge limit (nesting (recognizeTraced none line).2) with htrips | hfits
    · rw [(recognizeTraced_of_trips htrips).1] at h
      cases h
      cases hspan
    · rw [recognize, recognizeTraced_of_fits hfits] at h
      exact h

/-- A rejection that points into the line points at a token of it. -/
theorem exists_mem_lex_of_pointing {limit : Option Nat} {line : String} {why : Rejection}
    {span : Span} (h : recognize limit line = .error why) (hspan : why.span? = some span) :
    ∃ t ∈ lex line, t.span = span ∧
      (why = .noMatch t.kind t.span ∨ why = .trailingInput t.kind t.text t.span) := by
  obtain ⟨t, ht, hwhy⟩ := exists_mem_lex_of_rejection (recognize_of_pointing h hspan)
  refine ⟨t, ht, ?_, hwhy⟩
  rcases hwhy with rfl | rfl <;> exact Option.some.inj hspan

/-! ### What is marked -/

/-- A token of a line has a width, or it is the last one: at the end of the line, or behind all that
was cut into tokens and in front of another character. -/
theorem mem_lex_cases {line : String} {t : Token} (ht : t ∈ lex line) :
    (t.kind ≠ .token .eof ∧ t.kind ≠ .token .unknown ∧ t.span.length ≠ 0) ∨
    (t.kind = .token .eof ∧ t.span = ⟨Text.bytes line.toList, 0⟩) ∨
    (t.kind = .token .unknown ∧ ∃ c after,
      line.toList = (Token.joined (lex line)).toList ++ c :: after ∧
        t.span = ⟨Text.bytes (Token.joined (lex line)).toList, 0⟩) := by
  have hcut : Cut 0 line.toList (lex line) := Reader.cut_drain line.toList 0
  obtain ⟨ts, last, hlex, hts, htext, hspan, hlast⟩ := hcut.exists_last
  rw [Nat.zero_add] at hspan
  rw [hlex, List.mem_append, List.mem_singleton] at ht
  rcases ht with ht | rfl
  · obtain ⟨hwide, -, hlength⟩ := hts t ht
    refine .inl ⟨?_, ?_, Nat.ne_of_gt hlength⟩
    all_goals
      intro hk
      rw [hk] at hwide
      cases hwide
  · rw [hlex, Token.joined_concat htext]
    rcases hlast with ⟨hk, hline⟩ | ⟨hk, c, after, hline, -⟩
    · exact .inr (.inl ⟨hk, by rw [hspan, hline]⟩)
    · exact .inr (.inr ⟨hk, c, after, hline, hspan⟩)

namespace Report.Snippet

/-- A mark for a piece of the line that takes something is that piece. -/
theorem aim?_of_slices {line text : String} {s : Span} (h : s.Slices line text)
    (hlength : s.length ≠ 0) : aim? line.toList s = some s := by
  obtain ⟨before, after, hline, hstart, htext⟩ := h
  have hmark := canMark_append before text.toList after
  rw [← hline, hstart, htext] at hmark
  rw [aim?_of_length_ne_zero hlength]
  exact if_pos hmark

/-- A mark for nothing means the character behind it, if there is one. -/
theorem aim?_of_empty (before after : List Char) :
    aim? (before ++ after) ⟨Text.bytes before, 0⟩ =
      some (after.head?.elim ⟨Text.bytes before, 0⟩ fun c => ⟨Text.bytes before, c.utf8Size⟩) := by
  rw [aim?_of_length_eq_zero rfl, adjust?, if_pos rfl, Text.dropBytes?_append]
  cases after <;> rfl

end Report.Snippet

open Report.Snippet

/-- What a snippet marks for a token of a line: nothing for the end of the line, the character
behind all that was cut into tokens for one that begins no token, and the token itself if it has a
width. -/
theorem exists_aim_of_mem_lex {line : String} {t : Token} (ht : t ∈ lex line) :
    ∃ range marked, aim? line.toList t.span = some range ∧ range.Slices line marked ∧
      (range.length = 0 ↔ t.kind = .token .eof) ∧
      (t.kind = .token .unknown → ∃ c after,
        line.toList = (Token.joined (lex line)).toList ++ c :: after ∧
          range.start = Text.bytes (Token.joined (lex line)).toList ∧ marked.toList = [c]) ∧
      (t.kind ≠ .token .eof → t.kind ≠ .token .unknown → range = t.span) := by
  have hcut : Cut 0 line.toList (lex line) := Reader.cut_drain line.toList 0
  rcases mem_lex_cases ht with
    ⟨heof, hunknown, hlength⟩ | ⟨hk, hspan⟩ | ⟨hk, c, after, hline, hspan⟩
  · have hslices := hcut.slices t ht
    exact ⟨t.span, t.text, aim?_of_slices hslices hlength, hslices,
      ⟨fun h => absurd h hlength, fun h => absurd h heof⟩, fun h => absurd h hunknown,
      fun _ _ => rfl⟩
  · have haim := aim?_of_empty line.toList []
    rw [List.append_nil] at haim
    refine ⟨⟨Text.bytes line.toList, 0⟩, "", by rw [hspan, haim]; rfl, ?_,
      ⟨fun _ => hk, fun _ => rfl⟩, fun h => ?_, fun h _ => absurd hk h⟩
    · exact ⟨line.toList, [], by simp, rfl, rfl⟩
    · rw [hk] at h
      cases h
  · have haim := aim?_of_empty (Token.joined (lex line)).toList (c :: after)
    rw [← hline] at haim
    refine ⟨⟨Text.bytes (Token.joined (lex line)).toList, c.utf8Size⟩, String.ofList [c],
      by rw [hspan, haim]; rfl, ?_, ⟨fun h => ?_, fun h => ?_⟩, fun _ => ?_, fun _ h => absurd hk h⟩
    · exact ⟨(Token.joined (lex line)).toList, after, by simp [hline], rfl, by simp⟩
    · exact absurd h (Nat.ne_of_gt c.utf8Size_pos)
    · rw [hk] at h
      cases h
    · exact ⟨c, after, hline, rfl, String.toList_ofList⟩

/-- **Every place that a rejection points at is a token of the line.** The answer tells the kind and
the span of the token, and for one behind a query its text as well, which is what the line has
there. The range that a snippet marks for it lies in the line and begins and ends between
characters. It is empty if and only if the token is `Eof`; for `Unknown` it is the one character
behind all that was cut into tokens, and otherwise it is the token. -/
theorem recognize_points_at_token {limit : Option Nat} {line : String} {why : Rejection} {span : Span}
    (h : recognize limit line = .error why) (hspan : why.span? = some span) :
    ∃ t ∈ lex line, span = t.span ∧
      (why = .noMatch t.kind t.span ∨ why = .trailingInput t.kind t.text t.span) ∧
      t.span.Slices line t.text ∧
      ∃ range marked, aim? line.toList span = some range ∧
        range.Slices line marked ∧ range.stop ≤ Text.bytes line.toList ∧
        (range.length = 0 ↔ t.kind = .token .eof) ∧
        (t.kind = .token .unknown → ∃ c after,
          line.toList = (Token.joined (lex line)).toList ++ c :: after ∧
            range.start = Text.bytes (Token.joined (lex line)).toList ∧ marked.toList = [c]) ∧
        (t.kind ≠ .token .eof → t.kind ≠ .token .unknown → range = span) := by
  obtain ⟨t, ht, rfl, hwhy⟩ := exists_mem_lex_of_pointing h hspan
  obtain ⟨range, marked, haim, hslices, hrest⟩ := exists_aim_of_mem_lex ht
  have hcut : Cut 0 line.toList (lex line) := Reader.cut_drain line.toList 0
  exact ⟨t, ht, rfl, hwhy, hcut.slices t ht, range, marked, haim, hslices, hslices.stop_le, hrest⟩

/-- In `é €` the sign begins no token: the answer points in front of it, and its three bytes are
marked. -/
theorem recognize_points_at_token_sign :
    recognize (some 6) "é €" = .error (.trailingInput (.token .unknown) "" ⟨3, 0⟩) ∧
      ∃ range, aim? "é €".toList ⟨3, 0⟩ = some range ∧ range.Slices "é €" "€" ∧
        range.length ≠ 0 := by
  have h : recognize (some 6) "é €" = .error (.trailingInput (.token .unknown) "" ⟨3, 0⟩) := by
    decide +kernel
  obtain ⟨t, -, -, hwhy, -, range, marked, haim, hslices, -, hempty, hunknown, -⟩ :=
    recognize_points_at_token h rfl
  have hk : t.kind = .token .unknown := by
    rcases hwhy with hwhy | hwhy
    · cases hwhy
    · exact (Rejection.trailingInput.inj hwhy).1.symm
  obtain ⟨c, after, hline, -, hmarked⟩ := hunknown hk
  have hjoined : (Token.joined (lex "é €")).toList = ['é', ' '] := by decide +kernel
  have hsign : "é €".toList = ['é', ' '] ++ ['€'] := by decide
  rw [hjoined, hsign] at hline
  obtain ⟨rfl, -⟩ := List.cons.inj (List.append_cancel_left hline)
  obtain rfl : marked = "€" := String.toList_inj.1 (hmarked.trans (by decide))
  refine ⟨h, range, haim, hslices, fun hlength => ?_⟩
  rw [hempty, hk] at hlength
  cases hlength

end BoolQuery
