/-
# Texts one behind the other

The tokens of two texts that are written one behind the other are the tokens of the first one up to
`Eof`, and behind them those of the second one, each as many bytes further on as the first text
takes. What follows the first text matters to its last token in these ways only:

| the first text ends with | the second one begins with | one behind the other |
| --- | --- | --- |
| a character of words | a character of words | a word goes on over the border |
| whitespace | whitespace | the whitespace goes on over the border |
| the word `AND` or `OR` | whitespace | the word is a keyword |

Where a run goes on over the border (the first two rows, excluded by `PartAt`) its tokens are put
together. In the third row nothing but the kind of the last token changes.
-/

import BoolQuery.Proofs.Fragments.Standing

namespace BoolQuery

open Lexicon

/-! ### The last token -/

namespace Lexicon

/-- No run goes on over the border between two texts: the characters on both sides of it are not
both of words, and not both whitespace. -/
def PartAt (cs ds : List Char) : Prop :=
  ∀ c ∈ cs.getLast?, ∀ d ∈ ds.head?,
    ¬ (isWordChar c = true ∧ isWordChar d = true) ∧ ¬ (isBlank c = true ∧ isBlank d = true)

theorem PartAt.of_append (bs : List Char) {cs ds : List Char} (hcs : cs ≠ [])
    (h : PartAt (bs ++ cs) ds) : PartAt cs ds := by
  rwa [PartAt, List.getLast?_append_of_ne_nil bs hcs] at h

/-- A run that is all of a text does not go on behind it, where the texts part. -/
theorem stopsAt_of_partAt {r : TokenKind × Pattern} (hr : r ∈ rules) {cs ds : List Char}
    (hcs : r.2.Describes cs) (h : PartAt cs ds) : r.2.StopsAt ds := by
  have hlast : ∀ member : Char → Bool, (cs ≠ [] ∧ ∀ c ∈ cs, member c = true) →
      ∃ c ∈ cs.getLast?, member c = true := by
    rintro member ⟨hne, hall⟩
    exact ⟨_, List.getLast?_eq_getLast_of_ne_nil hne, hall _ (List.getLast_mem hne)⟩
  simp only [rules, List.mem_cons, List.not_mem_nil, or_false] at hr
  rcases hr with rfl | rfl | rfl | rfl | rfl | rfl | rfl | rfl
  case inr.inr.inr.inr.inr.inr.inl =>
    obtain ⟨c, hc, hblank⟩ := hlast isBlank hcs
    intro d hd
    exact Bool.eq_false_iff.2 fun hd' => (h c hc d hd).2 ⟨hblank, hd'⟩
  case inr.inr.inr.inr.inr.inr.inr =>
    obtain ⟨c, hc, hword⟩ := hlast isWordChar hcs
    intro d hd
    exact Bool.eq_false_iff.2 fun hd' => (h c hc d hd).1 ⟨hword, hd'⟩
  all_goals trivial

/-- A kind is promoted only if it is that of a word which spells a keyword. -/
theorem promote_eq_self {kind : TokenKind} {taken after : List Char}
    (h : kind = .word → after.head?.any isBlank = true →
      taken ≠ ['A', 'N', 'D'] ∧ taken ≠ ['O', 'R']) :
    promote kind taken after = kind := by
  rw [promote_eq]
  split
  · rename_i hword
    obtain ⟨hand, hor⟩ := h hword.1 hword.2
    rw [if_neg hand, if_neg hor]
  · rfl

end Lexicon

/-- **A token at the end of a text stands before any other text that parts from it**, of the kind
that it is promoted to there. -/
theorem Token.StandsBefore.promoted {t : Token} {k : TokenKind} {cs : List Char}
    (h : t.StandsBefore []) (hk : t.kind = .token k) (hpart : PartAt t.text.toList cs) :
    ({ t with kind := .token (promote k t.text.toList cs) } : Token).StandsBefore cs := by
  obtain ⟨r, hr, htaken, -, hkind⟩ := iff_rule.1 h
  rw [promote_of_not_blank rfl, hk] at hkind
  obtain rfl := Kind.token.inj hkind
  exact iff_rule.2 ⟨r, hr, htaken, stopsAt_of_partAt hr htaken hpart, rfl⟩

/-! ### All tokens -/

/-- The tokens of a text that begins further on are further on. -/
theorem lexFrom_add (d start : Nat) (cs : List Char) :
    lexFrom (d + start) cs = (lexFrom start cs).map (Token.moved d) := by
  have hnext : (Reader.next ⟨[], cs, d + start⟩).1 = (Reader.next ⟨[], cs, start⟩).1.moved d := rfl
  have hkind : ((Reader.next ⟨[], cs, start⟩).1.moved d).kind =
      (Reader.next ⟨[], cs, start⟩).1.kind := rfl
  rw [lexFrom, lexFrom, Reader.drain_eq, Reader.drain_eq ⟨[], cs, start⟩, hnext, hkind]
  split
  · rfl
  · rename_i hwide
    have hlt := Reader.size_next_lt (by simpa using hwide)
    have hrest := lexFrom_add d (start + Text.bytes (lexeme cs).2) (cs.drop (lexeme cs).2.length)
    rw [← Nat.add_assoc] at hrest
    exact congrArg _ hrest
termination_by Reader.size ⟨[], cs, start⟩

/-- Tokens that are the line `s` and stand in front of `t` are the first ones of both. -/
theorem lex_append_of_seamed {s t : String} {ts : List Token} (hplaced : Placed 0 ts)
    (hseamed : Seamed t.toList ts) (htext : Token.joined ts = s) :
    lex (s ++ t) = ts ++ (lex t).map (Token.moved (Text.bytes s.toList)) := by
  subst htext
  have hall := lexFrom_append hplaced hseamed
  rw [Nat.zero_add, ← Nat.add_zero (Text.bytes _), lexFrom_add, ← String.toList_append] at hall
  exact hall

/-- The last token of a line is promoted in front of a text, and the others stay as they are. -/
theorem lex_append_promoted {s t : String} {us : List Token} {u e : Token} {k : TokenKind}
    (hlex : lex s = us ++ [u] ++ [e]) (heof : e.kind = .token .eof) (hk : u.kind = .token k)
    (hpart : PartAt u.text.toList t.toList) :
    lex (s ++ t) = us ++ { u with kind := .token (promote k u.text.toList t.toList) } ::
      (lex t).map (Token.moved (Text.bytes s.toList)) := by
  obtain ⟨hplaced, hseamed, htext⟩ := seamed_of_lex hlex heof
  obtain ⟨hus, hu⟩ := seamed_append.1 hseamed
  have hlast := hu.1.promoted hk hpart
  rw [← List.singleton_append, ← List.append_assoc]
  refine lex_append_of_seamed ?_ (seamed_append.2 ⟨hus.congr ?_, ?_, trivial⟩) ?_
  · rw [placed_append] at hplaced ⊢
    exact hplaced
  · -- Those in front see the same first character of the last token.
    obtain ⟨c, cs, hc⟩ := List.exists_cons_of_ne_nil hu.1.text_ne_nil
    simp [hc]
  · exact hlast
  · rw [← htext, ← String.toList_inj]
    simp

/-- **Cutting a line into tokens is a homomorphism where no run goes on over the border.** If the
first text is cut up to its end, the tokens of both texts one behind the other are those of the
first one without `Eof` and those of the second one, moved behind them. Only if the first text ends
with the word `AND` or `OR` and the second one begins with whitespace, there is one more difference:
this word is the keyword then. -/
theorem lex_append {s t : String} {ts : List Token} {e : Token} (hlex : lex s = ts ++ [e])
    (heof : e.kind = .token .eof) (hpart : PartAt s.toList t.toList) :
    ((∀ u ∈ ts.getLast?, u.kind = .token .word → t.toList.head?.any isBlank = true →
        u.text ≠ "AND" ∧ u.text ≠ "OR") →
      lex (s ++ t) = ts ++ (lex t).map (Token.moved (Text.bytes s.toList))) ∧
    ∀ us u, ts = us ++ [u] → u.kind = .token .word → t.toList.head?.any isBlank = true →
      (u.text = "AND" → lex (s ++ t) =
        us ++ { u with kind := .token .kwAnd } :: (lex t).map (Token.moved (Text.bytes s.toList))) ∧
      (u.text = "OR" → lex (s ++ t) =
        us ++ { u with kind := .token .kwOr } :: (lex t).map (Token.moved (Text.bytes s.toList))) := by
  obtain ⟨hplaced, hseamed, htext⟩ := seamed_of_lex hlex heof
  have hlast : ∀ us u, ts = us ++ [u] → u.StandsBefore [] ∧ PartAt u.text.toList t.toList := by
    rintro us u rfl
    have hu := (seamed_append.1 hseamed).2.1
    refine ⟨hu, PartAt.of_append (Token.joined us).toList hu.text_ne_nil ?_⟩
    rw [← htext] at hpart
    simpa using hpart
  constructor
  · intro hno
    rcases List.eq_nil_or_concat ts with rfl | ⟨us, u, hts⟩
    · exact lex_append_of_seamed hplaced trivial htext
    · rw [List.concat_eq_append] at hts
      obtain ⟨hu, hpart⟩ := hlast us u hts
      subst hts
      obtain ⟨k, hk, -⟩ := hu.2
      have hself : promote k u.text.toList t.toList = k := by
        refine promote_eq_self fun hword hblank => ?_
        have hu := hno u (by simp) (hword ▸ hk) hblank
        rw [← String.toList_inj.ne, ← String.toList_inj.ne] at hu
        exact hu
      have hall := lex_append_promoted hlex heof hk hpart
      rw [hself, ← hk] at hall
      rw [hall, List.append_assoc, List.singleton_append]
  · rintro us u rfl hk hblank
    obtain ⟨-, hpart⟩ := hlast us u rfl
    have hall := lex_append_promoted hlex heof hk hpart
    refine ⟨fun hand => ?_, fun hor => ?_⟩
    · rw [hall, hand, promote_eq, if_pos ⟨rfl, hblank⟩, if_pos (by decide)]
    · rw [hall, hor, promote_eq, if_pos ⟨rfl, hblank⟩, if_neg (by decide), if_pos (by decide)]

/-- Behind `é OR` a parenthesis leaves the word as it is, and a space makes a keyword of it. -/
theorem lex_append_word :
    lex ("é OR" ++ "(\u2019") =
      [⟨TokenKind.word, "é", ⟨0, 2⟩⟩, ⟨TokenKind.whitespace, " ", ⟨2, 1⟩⟩,
        ⟨TokenKind.word, "OR", ⟨3, 2⟩⟩] ++ (lex "(\u2019").map (Token.moved 5) ∧
    lex ("é OR" ++ " b") =
      [⟨TokenKind.word, "é", ⟨0, 2⟩⟩, ⟨TokenKind.whitespace, " ", ⟨2, 1⟩⟩] ++
        ⟨TokenKind.kwOr, "OR", ⟨3, 2⟩⟩ :: (lex " b").map (Token.moved 5) := by
  have hlex : lex "é OR" = [⟨TokenKind.word, "é", ⟨0, 2⟩⟩, ⟨TokenKind.whitespace, " ", ⟨2, 1⟩⟩,
      ⟨TokenKind.word, "OR", ⟨3, 2⟩⟩] ++ [⟨TokenKind.eof, "", ⟨5, 0⟩⟩] := by decide +kernel
  have hparen : PartAt "é OR".toList "(\u2019".toList := by
    simp [PartAt]
    decide
  have hspace : PartAt "é OR".toList " b".toList := by
    simp [PartAt]
    decide
  have hplain := (lex_append hlex rfl hparen).1 (by simp [isBlank])
  have hkeyword := (lex_append hlex rfl hspace).2 [⟨TokenKind.word, "é", ⟨0, 2⟩⟩,
    ⟨TokenKind.whitespace, " ", ⟨2, 1⟩⟩] ⟨TokenKind.word, "OR", ⟨3, 2⟩⟩ rfl rfl (by simp [isBlank])
  exact ⟨hplain, hkeyword.2 rfl⟩

end BoolQuery
