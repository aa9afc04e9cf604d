/-
# The tokens cut the line into pieces

The tokens of a line are its pieces in order, none left out and none twice, and a last token without
width that tells how the line ended. `Cut` says so of the characters from any byte on: it is built
as the reader goes, one piece at a time, and what holds of all tokens of a line is read off it.

| last token | stands |
| --- | --- |
| `Eof` | behind the whole line |
| `Unknown` | in front of a character at which no lexical rule matches |
-/

import BoolQuery.Reader
import Mathlib.Data.List.Chain

namespace BoolQuery

namespace Lexicon

/-- What a pattern matches is the beginning of the text. -/
theorem Pattern.match?_prefix {p : Pattern} {cs taken : List Char}
    (h : p.match? cs = some taken) : taken <+: cs := by
  unfold match? at h
  split at h
  · cases h
  · split at h
    · cases h
      exact ⟨_, rfl⟩
    · cases h
  · rename_i mark c cs
    split at h
    · split at h
      · rename_i i inner closing after htake hdrop
        cases h
        refine ⟨after, ?_⟩
        rw [List.append_assoc, List.singleton_append, ← hdrop, List.cons_append, ← htake,
          List.takeWhile_append_dropWhile]
      · cases h
    · cases h
  · rename_i member c cs
    split at h
    · cases h
      exact (List.prefix_cons_inj c).2 (List.takeWhile_prefix member)
    · cases h

/-- Where there is no longest match no rule matches. -/
theorem match?_of_longest?_eq_none {cs : List Char} {rs : List (TokenKind × Pattern)}
    (h : longest? cs rs = none) : ∀ r ∈ rs, r.2.match? cs = none := by
  induction rs with
  | nil => exact nofun
  | cons r rs ih =>
    obtain ⟨kind, pattern⟩ := r
    unfold longest? at h
    split at h
    · rename_i hnone
      rw [List.forall_mem_cons]
      exact ⟨hnone, ih h⟩
    · cases h
    · split at h <;> cases h

/-- The next token of a text is a piece of it, or there is none: at its end, and in front of a
character at which no rule matches. -/
theorem lexeme_cases (cs : List Char) :
    (cs = [] ∧ lexeme cs = (.eof, [])) ∨
    (cs ≠ [] ∧ lexeme cs = (.unknown, []) ∧ ∀ rule ∈ rules, rule.2.match? cs = none) ∨
    ((Kind.token (lexeme cs).1).isZeroWidth = false ∧ (lexeme cs).2 ≠ [] ∧
      (lexeme cs).2 <+: cs) := by
  unfold lexeme
  split
  · rename_i hcs
    exact .inl ⟨hcs, rfl⟩
  · rename_i hcs
    split
    · rename_i hnone
      exact .inr (.inl ⟨hcs, rfl, match?_of_longest?_eq_none hnone⟩)
    · rename_i kind taken hsome
      obtain ⟨p, hp, hmatch⟩ := exists_mem_of_longest? hsome
      exact .inr (.inr ⟨isZeroWidth_promote hp _ _, Pattern.match?_ne_nil hmatch,
        Pattern.match?_prefix hmatch⟩)

end Lexicon

/-- The tokens cut the characters from byte `offset` on into pieces. -/
inductive Cut : Nat → List Char → List Token → Prop
  | ending {offset : Nat} : Cut offset [] [⟨TokenKind.eof, "", ⟨offset, 0⟩⟩]
  | stuck {offset : Nat} {c : Char} {cs : List Char}
      (h : ∀ rule ∈ Lexicon.rules, rule.2.match? (c :: cs) = none) :
      Cut offset (c :: cs) [⟨TokenKind.unknown, "", ⟨offset, 0⟩⟩]
  | piece {offset : Nat} {kind : Kind} {taken rest : List Char} {ts : List Token}
      (hkind : kind.isZeroWidth = false) (htaken : taken ≠ [])
      (h : Cut (offset + Text.bytes taken) rest ts) :
      Cut offset (taken ++ rest)
        (⟨kind, String.ofList taken, ⟨offset, Text.bytes taken⟩⟩ :: ts)

/-- **A reader to which nothing was given back drains a cut** of what is left of the line. -/
theorem Reader.cut_drain (rest : List Char) (offset : Nat) :
    Cut offset rest (drain ⟨[], rest, offset⟩).1 := by
  rw [drain_eq]
  rcases Lexicon.lexeme_cases rest with ⟨rfl, hl⟩ | ⟨hne, hl, hnone⟩ | ⟨hwide, hne, hprefix⟩
  · rw [if_pos (by simp [next, scan, hl, Kind.isZeroWidth])]
    simp only [next, scan, hl]
    exact .ending
  · obtain ⟨c, cs, rfl⟩ := List.exists_cons_of_ne_nil hne
    rw [if_pos (by simp [next, scan, hl, Kind.isZeroWidth])]
    simp only [next, scan, hl]
    exact .stuck hnone
  · have hnext : (next ⟨[], rest, offset⟩).1.kind.isZeroWidth = false := hwide
    have hlt := size_next_lt hnext
    rw [if_neg (by rw [hnext]; exact Bool.false_ne_true)]
    have hrest : (Lexicon.lexeme rest).2 ++ rest.drop (Lexicon.lexeme rest).2.length = rest :=
      List.prefix_iff_eq_append.1 hprefix
    have hpiece := @Cut.piece offset _ _ _ _ hwide hne
      (cut_drain (rest.drop (Lexicon.lexeme rest).2.length) _)
    rw [hrest] at hpiece
    exact hpiece
termination_by size ⟨[], rest, offset⟩

namespace Cut

variable {offset : Nat} {cs : List Char} {ts : List Token}

/-- All tokens of a cut but the last are pieces that take something, and the last one takes nothing:
it is `Eof` if the pieces are all there is, and `Unknown` in front of what begins no token. -/
theorem exists_last (h : Cut offset cs ts) :
    ∃ us last, ts = us ++ [last] ∧
      (∀ t ∈ us, t.kind.isZeroWidth = false ∧ t.text ≠ "" ∧ 0 < t.span.length) ∧
      last.text = "" ∧ last.span = ⟨offset + Text.bytes (Token.joined us).toList, 0⟩ ∧
      (last.kind = .token .eof ∧ cs = (Token.joined us).toList ∨
        last.kind = .token .unknown ∧ ∃ c rest, cs = (Token.joined us).toList ++ c :: rest ∧
          ∀ rule ∈ Lexicon.rules, rule.2.match? (c :: rest) = none) := by
  induction h with
  | ending => exact ⟨[], _, rfl, nofun, rfl, rfl, .inl ⟨rfl, rfl⟩⟩
  | stuck h => exact ⟨[], _, rfl, nofun, rfl, rfl, .inr ⟨rfl, _, _, rfl, h⟩⟩
  | @piece offset kind taken rest ts hkind htaken _ ih =>
    obtain ⟨us, last, rfl, hus, htext, hspan, hlast⟩ := ih
    refine ⟨_ :: us, last, rfl, ?_, htext, ?_, ?_⟩
    · rw [List.forall_mem_cons]
      refine ⟨⟨hkind, ?_, ?_⟩, hus⟩
      · simpa using htaken
      · exact Nat.pos_of_ne_zero fun hzero => htaken (Text.bytes_eq_zero.1 hzero)
    · simpa [Nat.add_assoc] using hspan
    · rcases hlast with ⟨hk, rfl⟩ | ⟨hk, c, after, rfl, hnone⟩
      · exact .inl ⟨hk, by simp⟩
      · exact .inr ⟨hk, c, after, by simp, hnone⟩

theorem head?_start (h : Cut offset cs ts) : ts.head?.map (·.span.start) = some offset := by
  cases h <;> rfl

/-- Each token starts where the one before it stops. -/
theorem contiguous (h : Cut offset cs ts) :
    ts.IsChain fun t u => u.span.start = t.span.stop := by
  induction h with
  | ending | stuck _ => exact List.isChain_singleton _
  | piece _ _ h ih =>
    refine List.isChain_cons.2 ⟨fun u hu => ?_, ih⟩
    have hstart := h.head?_start
    rw [hu] at hstart
    exact Option.some.inj hstart

/-- Each token stands in the text at its own bytes. -/
theorem exists_around (h : Cut offset cs ts) : ∀ t ∈ ts, ∃ before after,
    cs = before ++ t.text.toList ++ after ∧ offset + Text.bytes before = t.span.start ∧
      Text.bytes t.text.toList = t.span.length := by
  induction h with
  | @ending offset =>
    rw [List.forall_mem_singleton]
    exact ⟨[], [], rfl, rfl, rfl⟩
  | stuck _ =>
    rw [List.forall_mem_singleton]
    exact ⟨[], _, rfl, rfl, rfl⟩
  | @piece offset kind taken rest ts _ _ _ ih =>
    rw [List.forall_mem_cons]
    constructor
    · exact ⟨[], rest, by simp, rfl, by simp⟩
    · intro t ht
      obtain ⟨before, after, rfl, hstart, hlength⟩ := ih t ht
      exact ⟨taken ++ before, after, by simp, by rw [Text.bytes_append]; omega, hlength⟩

end Cut

/-- The text stands in the line at exactly the bytes of the range, which begins and ends between
characters. -/
def Span.Slices (s : Span) (line text : String) : Prop :=
  ∃ before after, line.toList = before ++ text.toList ++ after ∧
    Text.bytes before = s.start ∧ Text.bytes text.toList = s.length

/-- A range of the line ends in the line. -/
theorem Span.Slices.stop_le {s : Span} {line text : String} (h : s.Slices line text) :
    s.stop ≤ Text.bytes line.toList := by
  obtain ⟨before, after, hline, hstart, hlength⟩ := h
  rw [hline, Text.bytes_append, Text.bytes_append, stop, ← hstart, ← hlength]
  exact Nat.le_add_right ..

theorem Cut.slices {line : String} {ts : List Token} (h : Cut 0 line.toList ts) :
    ∀ t ∈ ts, t.span.Slices line t.text := by
  intro t ht
  obtain ⟨before, after, hline, hstart, hlength⟩ := h.exists_around t ht
  exact ⟨before, after, hline, by omega, hlength⟩

theorem Token.joined_concat {last : Token} (h : last.text = "") (ts : List Token) :
    joined (ts ++ [last]) = joined ts := by
  rw [joined, joined, List.flatMap_append]
  simp [h]

/-- **The tokens of a line are a partition of it.** All of them but the last have a width, and the
last has none. They stand side by side from the first byte on, each at its own bytes of the line,
and no further than the line goes. The last one is `Eof` if and only if the texts of the tokens are
the whole line; otherwise it is `Unknown` and stands in front of a character at which no lexical
rule matches. -/
theorem lex_partition (line : String) :
    ∃ ts last, lex line = ts ++ [last] ∧
      (∀ t ∈ ts, t.kind.isZeroWidth = false ∧ t.text ≠ "" ∧ 0 < t.span.length) ∧
      (last.kind.isZeroWidth = true ∧ last.text = "" ∧ last.span.length = 0) ∧
      (lex line).head?.map (·.span.start) = some 0 ∧
      (lex line).IsChain (fun t u => u.span.start = t.span.stop) ∧
      (∀ t ∈ lex line, t.span.Slices line t.text ∧ t.span.stop ≤ Text.bytes line.toList) ∧
      (last.kind = .token .eof ↔ Token.joined (lex line) = line) ∧
      (last.kind ≠ .token .eof → last.kind = .token .unknown ∧
        ∃ before c after, line.toList = before ++ c :: after ∧
          Text.bytes before = last.span.start ∧
          ∀ rule ∈ Lexicon.rules, rule.2.match? (c :: after) = none) := by
  have hcut : Cut 0 line.toList (lex line) := Reader.cut_drain line.toList 0
  obtain ⟨ts, last, hlex, hts, htext, hspan, hlast⟩ := hcut.exists_last
  rw [Nat.zero_add] at hspan
  have hslices := hcut.slices
  have hjoined : Token.joined (lex line) = Token.joined ts := by
    rw [hlex, Token.joined_concat htext]
  refine ⟨ts, last, hlex, hts, ⟨?_, htext, by rw [hspan]⟩, hcut.head?_start, hcut.contiguous,
    fun t ht => ⟨hslices t ht, (hslices t ht).stop_le⟩, ?_, fun hne => ?_⟩
  · rcases hlast with ⟨hk, -⟩ | ⟨hk, -⟩ <;> rw [hk] <;> rfl
  · rw [hjoined, ← String.toList_inj]
    rcases hlast with ⟨hk, hline⟩ | ⟨hk, c, after, hline, -⟩
    · exact ⟨fun _ => hline.symm, fun _ => hk⟩
    · -- The character behind the pieces belongs to the line as well.
      have hne : last.kind ≠ .token .eof := by
        rw [hk]
        decide
      refine ⟨fun heof => absurd heof hne, fun h => ?_⟩
      rw [← h] at hline
      simp at hline
  · rcases hlast with ⟨hk, -⟩ | ⟨hk, c, after, hline, hnone⟩
    · exact absurd hk hne
    · exact ⟨hk, _, c, after, hline, by rw [hspan], hnone⟩

end BoolQuery
