/-
# What stands side by side

Tokens are read one by one, each by itself, and yet not every token can follow every other one. A
run takes all that it can take, and a word that spells a keyword is one by the character behind it:

| token | the next one is |
| --- | --- |
| whitespace | not whitespace |
| a word or a keyword | neither a word nor a keyword |
| a keyword | whitespace |
| the word `AND` or `OR` | not whitespace |

A keyword is told by the character behind it, and whitespace by its first one, and these are the
same characters. So behind a keyword the grammar never asks for whitespace in vain.
-/

import BoolQuery.Proofs.Grammar.Soundness
import BoolQuery.Proofs.Lexing.Seams
import BoolQuery.Proofs.Lexing.Spacing
import BoolQuery.Proofs.Recursion.Subgoals

namespace BoolQuery

open Lexicon

/-- The kinds of tokens that are runs of the characters of words. -/
def TokenKind.isLettered : TokenKind → Bool
  | .word | .kwAnd | .kwOr => true
  | _ => false

namespace Lexicon

variable {cs taken after : List Char} {k : TokenKind}

theorem isLettered_promote : (promote k taken after).isLettered = k.isLettered := by
  unfold promote
  split
  · rename_i h
    rw [h.1]
    split
    · rfl
    · split <;> rfl
  · rfl

/-! ### The first character of a token -/

/-- A character of a run decides that the next token is one. -/
theorem lexeme_of_run {member : Char → Bool} (hr : (k, Pattern.run member) ∈ rules) {c : Char}
    (hc : member c = true) :
    (lexeme (c :: cs)).1 = promote k (c :: cs.takeWhile member)
      ((c :: cs).drop (c :: cs.takeWhile member).length) := by
  have hmatch : (Pattern.run member).match? (c :: cs) = some (c :: cs.takeWhile member) := by
    simp [Pattern.match?, hc]
  rw [lexeme, if_neg (List.cons_ne_nil c cs), longest?_of_match? hr hmatch]

/-- **The next token is whitespace where the next character is blank.** -/
theorem lexeme_eq_whitespace_iff :
    (lexeme cs).1 = .whitespace ↔ cs.head?.any isBlank = true := by
  constructor
  · intro h
    obtain ⟨htaken, hne⟩ := lexeme_of_whitespace h
    rw [htaken] at hne
    cases cs with
    | nil => exact absurd rfl hne
    | cons c cs =>
      simp only [List.head?_cons, Option.any_some]
      by_contra hc
      exact hne (List.takeWhile_cons_of_neg hc)
  · intro h
    cases cs with
    | nil => simp at h
    | cons c cs =>
      have hrule : (TokenKind.whitespace, Pattern.run isBlank) ∈ rules := by simp [rules]
      rw [lexeme_of_run hrule (by simpa using h)]
      simp [promote]

/-- A token is a word or a keyword only where the next character is of a word. -/
theorem head?_of_isLettered (h : (lexeme cs).1.isLettered = true) :
    ∃ c ∈ cs.head?, isWordChar c = true := by
  unfold lexeme at h
  split at h
  · simp [TokenKind.isLettered] at h
  · split at h
    · simp [TokenKind.isLettered] at h
    · rename_i kind taken hl
      obtain ⟨p, hp, hmatch⟩ := exists_mem_of_longest? hl
      rw [isLettered_promote] at h
      obtain rfl : p = .run isWordChar := by
        simp only [rules, List.mem_cons, Prod.mk.injEq, List.not_mem_nil, or_false] at hp
        rcases hp with hp | hp | hp | hp | hp | hp | hp | hp <;>
          simp [hp, TokenKind.isLettered] at h ⊢
      cases cs with
      | nil => simp [Pattern.match?] at hmatch
      | cons c cs =>
        simp only [Pattern.match?] at hmatch
        split at hmatch
        · rename_i hc
          exact ⟨c, rfl, hc⟩
        · cases hmatch

end Lexicon

/-! ### Neighbours -/

/-- A token that is a word or a keyword takes all characters of words at its place, and the
character behind it tells which of the two it is. -/
theorem Token.StandsBefore.lettered {t : Token} {k : TokenKind} {after : List Char}
    (h : t.StandsBefore after) (hk : t.kind = .token k) (hlettered : k.isLettered = true) :
    (∀ c ∈ after.head?, isWordChar c = false) ∧ k = promote .word t.text.toList after := by
  obtain ⟨r, hr, -, hstop, hkind⟩ := iff_rule.1 h
  rw [hk] at hkind
  obtain rfl := Kind.token.inj hkind
  rw [isLettered_promote] at hlettered
  simp only [rules, List.mem_cons, List.not_mem_nil, or_false] at hr
  rcases hr with rfl | rfl | rfl | rfl | rfl | rfl | rfl | rfl
  case inr.inr.inr.inr.inr.inr.inr => exact ⟨hstop, rfl⟩
  all_goals cases hlettered

/-- What may stand side by side. -/
structure Adjoin (t u : Token) : Prop where
  whitespace : ¬ (t.kind = .token .whitespace ∧ u.kind = .token .whitespace)
  lettered : ∀ k l, t.kind = .token k → u.kind = .token l →
    ¬ (k.isLettered = true ∧ l.isLettered = true)
  keyword : t.kind = .token .kwAnd ∨ t.kind = .token .kwOr → u.kind = .token .whitespace
  word : t.kind = .token .word → t.text = "AND" ∨ t.text = "OR" → u.kind ≠ .token .whitespace

/-- A token has a next one of the kind that the text behind it begins with. -/
theorem exists_before {line : String} {ts us : List Token} {t u : Token}
    (h : lex line = ts ++ t :: u :: us) :
    ∃ after, t.StandsBefore after ∧ u.kind = .token (lexeme after).1 := by
  have hlex : lexFrom 0 line.toList = (ts ++ [t]) ++ u :: us := by
    rw [List.append_assoc]
    exact h
  obtain ⟨after, -, -, hseamed, hafter⟩ := exists_seamed hlex (List.cons_ne_nil u us)
  refine ⟨after, by simpa [Seamed] using (seamed_append.1 hseamed).2, ?_⟩
  have hhead := congrArg List.head? hafter
  rw [lexFrom, Reader.head?_drain] at hhead
  rw [← Option.some.inj hhead]
  rfl

/-- **Neighbours among the tokens of a line adjoin.** -/
theorem adjoin_of_lex {line : String} {ts us : List Token} {t u : Token}
    (h : lex line = ts ++ t :: u :: us) : Adjoin t u := by
  obtain ⟨after, ht, hu⟩ := exists_before h
  constructor
  · rintro ⟨htk, huk⟩
    have hspaced := spaced_lex line
    rw [h] at hspaced
    exact hspaced.not_twice htk huk
  · rintro k l hk hl ⟨hkl, hll⟩
    obtain rfl := Kind.token.inj (hl.symm.trans hu)
    obtain ⟨c, hc, hword⟩ := head?_of_isLettered hll
    rw [(ht.lettered hk hkl).1 c hc] at hword
    cases hword
  · intro hk
    obtain ⟨k, hkt, hlettered, hne⟩ : ∃ k : TokenKind,
        t.kind = .token k ∧ k.isLettered = true ∧ k ≠ .word := by
      rcases hk with hk | hk
      · exact ⟨_, hk, rfl, nofun⟩
      · exact ⟨_, hk, rfl, nofun⟩
    -- Without a blank behind it the word would not have been promoted.
    have hblank : after.head?.any isBlank = true := by
      by_contra hnot
      refine hne ((ht.lettered hkt hlettered).2.trans ?_)
      exact promote_of_not_blank (by simpa using hnot)
    rw [hu, lexeme_eq_whitespace_iff.2 hblank]
  · intro hk htext huk
    have hblank := lexeme_eq_whitespace_iff.1 (Kind.token.inj (hu.symm.trans huk))
    have hword := (ht.lettered hk rfl).2
    rcases htext with htext | htext <;> simp [promote_eq, hblank, htext] at hword

theorem isChain_adjoin (line : String) : (lex line).IsChain Adjoin := by
  rw [List.isChain_iff_forall_rel_of_append_cons_cons]
  rintro t u ts us h
  exact adjoin_of_lex h

/-- A keyword is not the last token of a line. -/
theorem exists_after_keyword {line : String} {ts us : List Token} {t : Token}
    (h : lex line = ts ++ t :: us) (hk : t.kind = .token .kwAnd ∨ t.kind = .token .kwOr) :
    ∃ u vs, us = u :: vs ∧ u.kind = .token .whitespace := by
  cases us with
  | cons u vs => exact ⟨u, vs, rfl, (adjoin_of_lex h).keyword hk⟩
  | nil =>
    obtain ⟨vs, last, hlex, -, hzero, -⟩ := exists_lex line
    obtain ⟨-, hlast⟩ := List.append_inj' (h.symm.trans hlex) rfl
    obtain rfl := List.singleton_inj.1 hlast
    rcases hk with hk | hk <;> simp [hk, Kind.isZeroWidth] at hzero

/-- Behind a place with a keyword stands whitespace. -/
theorem tokenAt_after_keyword {line : String} {i : Nat}
    (hk : (tokenAt line i).kind = .token .kwAnd ∨ (tokenAt line i).kind = .token .kwOr) :
    (tokenAt line (i + 1)).kind = .token .whitespace := by
  have hi : i + 1 < (lex line).length := by
    rw [← Nat.not_le, ← isZeroWidth_tokenAt]
    rcases hk with hk | hk <;> simp [hk, Kind.isZeroWidth]
  have hlex : lex line = (lex line).take i ++
      tokenAt line i :: tokenAt line (i + 1) :: (lex line).drop (i + 2) := by
    rw [← drop_lex hi, ← drop_lex (Nat.lt_of_succ_lt hi), List.take_append_drop]
  exact (adjoin_of_lex hlex).keyword hk

/-! ### The whitespace behind a keyword -/

namespace RecognizerM

open Recognizer Grammar Reader

variable {limit : Option Nat} {line : String} {ts : List Token} {g : ByPlace.Goal} {s t : State}

/-- What is to come where a run asks for something is what stands in the line behind the tokens that
were matched. -/
theorem Reaches.stream_eq (h : Reaches rule (.rule .query) (State.start line limit) ts g s) :
    s.reader.stream = fun n => tokenAt line (ts.length + n) := by
  have hstream := h.conserves (v := streamView) rule_conserves
  have hline : inFront ts s.reader.stream = fun n => tokenAt line (0 + n) := by
    simp only [Nat.zero_add]
    rw [← stream_ofString line]
    exact hstream
  simpa using (standAt_of_inFront hline).2

/-- A token that was matched stood at the first place to come, and the others stand behind it. -/
theorem terminal_place {kind : Kind} {a : Token} {i : Nat}
    (hs : s.reader.stream = fun n => tokenAt line (i + n))
    (h : terminal kind s = .ok (some a) t) :
    (tokenAt line i).kind = kind ∧ t.reader.stream = fun n => tokenAt line (i + 1 + n) := by
  have hstream : inFront [a] t.reader.stream = s.reader.stream :=
    (terminal_conserves (v := streamView) kind s _ t h).2
  rw [hs] at hstream
  obtain ⟨ha, ht⟩ := standAt_of_inFront hstream
  rw [← (kind_of_terminal h).1, ← (standAt_cons.1 ha).1]
  exact ⟨rfl, ht⟩

/-- Where a token of the kind is to come it is matched. -/
theorem exists_terminal {k : TokenKind} (h : (s.reader.stream 0).kind = .token k) :
    ∃ a t, terminal (.token k) s = .ok (some a) t := by
  rw [terminal_run]
  exact ⟨_, _, if_pos h⟩

end RecognizerM

open RecognizerM Recognizer Grammar

/-- **Runs are as long as they can be, and keywords stand in front of whitespace.** Among the tokens
of a line no whitespace stands beside whitespace and no word or keyword beside another one; each
keyword has whitespace behind it, and a word that spells one has not. So the connectives of the
grammar, wherever a run of `Query` begins to match one, never miss the whitespace behind the
keyword. -/
theorem lex_neighbours (line : String) :
    (lex line).IsChain Adjoin ∧
    (∀ ts t us, lex line = ts ++ t :: us → t.kind = .token .kwAnd ∨ t.kind = .token .kwOr →
      ∃ u vs, us = u :: vs ∧ u.kind = .token .whitespace) ∧
    ∀ limit k head kw item, kw = .kwAnd ∨ kw = .kwOr →
      Grammar.body k = .repetition head [tok .whitespace, tok kw, tok .whitespace, sub item] →
      ∀ ts s, Reaches rule (.rule .query) (State.start line limit) ts
        (.steps [] [tok .whitespace, tok kw, tok .whitespace, sub item]) s →
      ∀ a b t u, terminal (.token .whitespace) s = .ok (some a) t →
        terminal (.token kw) t = .ok (some b) u →
        ∃ c v, terminal (.token .whitespace) u = .ok (some c) v := by
  refine ⟨isChain_adjoin line, fun ts t us => exists_after_keyword, ?_⟩
  intro limit k head kw item hkw _ ts s hreach a b t u ha hb
  obtain ⟨-, ht⟩ := terminal_place hreach.stream_eq ha
  obtain ⟨hkind, hu⟩ := terminal_place ht hb
  refine exists_terminal ?_
  rw [hu]
  refine tokenAt_after_keyword ?_
  rw [hkind]
  rcases hkw with rfl | rfl
  · exact .inl rfl
  · exact .inr rfl

end BoolQuery
