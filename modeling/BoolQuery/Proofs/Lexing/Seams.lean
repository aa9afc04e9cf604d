/-
# Where one token ends and the next begins

What the next token of a text is depends on the characters it takes and on the one behind them. So
tokens that stand side by side can be taken out of their line, or put into another one, as long as
the last of them sees a character behind it that ends it in the same way:

| the last token | is the same in front of |
| --- | --- |
| any | a text that begins like the one it stood in front of |
| any but a keyword | nothing |
| any at the end of a line | a character that is in no word and no whitespace |

`Seamed` says that tokens follow one another as the lexical rules have it, and `Placed` that their
spans do. Together they tell all there is to the tokens of a line (`lexFrom_append`,
`exists_seamed`).
-/

import BoolQuery.Proofs.Lexing.Order
import Mathlib.Data.List.Pairwise
import Mathlib.Data.List.TakeWhile

namespace BoolQuery

namespace Lexicon

/-! ## Matches of patterns -/

/-- The texts that a pattern matches as a whole. -/
def Pattern.Describes : Pattern → List Char → Prop
  | symbol c, taken => taken = [c]
  | enclosed mark, taken =>
    ∃ inner, inner ≠ [] ∧ (∀ c ∈ inner, c ≠ mark) ∧ taken = mark :: inner ++ [mark]
  | run member, taken => taken ≠ [] ∧ ∀ c ∈ taken, member c = true

/-- A match cannot go on into the text behind it. Only a run could. -/
def Pattern.StopsAt : Pattern → List Char → Prop
  | run member, after => ∀ c ∈ after.head?, member c = false
  | _, _ => True

/-- A run ends with the first text when it holds all of that and nothing of the second. -/
theorem takeWhile_append_eq_left {p : Char → Bool} {cs after : List Char} :
    (cs ++ after).takeWhile p = cs ↔
      (∀ c ∈ cs, p c = true) ∧ ∀ c ∈ after.head?, p c = false := by
  induction cs with
  | nil => cases after <;> simp [List.takeWhile_cons]
  | cons c cs ih =>
    rw [List.cons_append, List.takeWhile_cons, List.forall_mem_cons]
    cases hc : p c with
    | true => simp [ih]
    | false => simp

/-- What stands between two marks is matched whatever follows. -/
theorem match?_enclosed_eq_some {mark : Char} {taken after : List Char} :
    (Pattern.enclosed mark).match? (taken ++ after) = some taken ↔
      (Pattern.enclosed mark).Describes taken := by
  constructor
  · intro h
    cases taken with
    | nil => exact absurd rfl (Pattern.match?_ne_nil h)
    | cons c cs =>
      simp only [List.cons_append, Pattern.match?] at h
      split at h
      · rename_i hc
        split at h
        · rename_i i inner closing rest htake hdrop
          have hinner : ∀ d ∈ i :: inner, d ≠ mark := by
            intro d hd
            rw [← htake] at hd
            simpa using List.mem_takeWhile_imp hd
          have hclosing : closing = mark := by
            have hhead := List.head?_dropWhile_not (· != mark) (cs ++ after)
            rw [hdrop] at hhead
            simpa using hhead
          subst hc hclosing
          refine ⟨i :: inner, List.cons_ne_nil i inner, hinner, ?_⟩
          simpa using (Option.some.inj h).symm
        · cases h
      · cases h
  · rintro ⟨inner, hne, hinner, rfl⟩
    obtain ⟨i, inner, rfl⟩ := List.exists_cons_of_ne_nil hne
    have hall : ∀ c ∈ i :: inner, (c != mark) = true := fun c hc => bne_iff_ne.2 (hinner c hc)
    have htake : (i :: inner ++ mark :: after).takeWhile (· != mark) = i :: inner :=
      takeWhile_append_eq_left.2 ⟨hall, by simp⟩
    have hdrop : (i :: inner ++ mark :: after).dropWhile (· != mark) = mark :: after := by
      rw [List.dropWhile_append_of_pos hall, List.dropWhile_cons_of_neg (by simp)]
    have htext : mark :: (i :: inner) ++ [mark] ++ after =
        mark :: (i :: inner ++ mark :: after) := by simp
    rw [htext]
    simp only [Pattern.match?, if_true, htake, hdrop]

/-- **A pattern takes exactly what it describes**, as far as that goes. -/
theorem Pattern.match?_append_eq_some {p : Pattern} {taken after : List Char} :
    p.match? (taken ++ after) = some taken ↔ p.Describes taken ∧ p.StopsAt after := by
  cases p with
  | symbol c =>
    cases taken with
    | nil => cases after <;> simp [match?, Describes]
    | cons d ds => by_cases hd : d = c <;> simp [match?, Describes, StopsAt, hd, eq_comm]
  | enclosed mark => exact match?_enclosed_eq_some.trans (and_iff_left trivial).symm
  | run member =>
    cases taken with
    | nil => cases after <;> simp [match?, Describes]
    | cons d ds =>
      simp only [List.cons_append, match?, Describes, StopsAt, List.forall_mem_cons]
      cases hd : member d with
      | true => simp [takeWhile_append_eq_left]
      | false => simp

/-! ## The next token of a text -/

/-- As the rules exclude each other, one that matches decides. -/
theorem longest?_of_match? {r : TokenKind × Pattern} {cs taken : List Char} (hr : r ∈ rules)
    (hmatch : r.2.match? cs = some taken) : longest? cs rules = some (r.1, taken) := by
  cases hbest : longest? cs rules with
  | none =>
    rw [match?_of_longest?_eq_none hbest r hr] at hmatch
    cases hmatch
  | some best =>
    obtain ⟨p, hp, hother⟩ := exists_mem_of_longest? hbest
    have : Std.Symm fun r s : TokenKind × Pattern =>
        r.2.match? cs = none ∨ s.2.match? cs = none := ⟨fun _ _ => Or.symm⟩
    by_cases hsame : r = (best.1, p)
    · subst hsame
      rw [hmatch] at hother
      rw [Option.some.inj hother]
    · rcases (rules_exclusive cs).forall hr hp hsame with hnone | hnone
      · rw [hnone] at hmatch
        cases hmatch
      · rw [hnone] at hother
        cases hother

/-- What a rule describes is the next token in front of a text into which it cannot go on. -/
theorem lexeme_of_rule {r : TokenKind × Pattern} {taken after : List Char} (hr : r ∈ rules)
    (htaken : r.2.Describes taken) (hstop : r.2.StopsAt after) :
    lexeme (taken ++ after) = (promote r.1 taken after, taken) := by
  have hmatch := Pattern.match?_append_eq_some.2 ⟨htaken, hstop⟩
  have hne : taken ++ after ≠ [] := List.append_ne_nil_of_left_ne_nil
    (Pattern.match?_ne_nil hmatch) after
  rw [lexeme, if_neg hne, longest?_of_match? hr hmatch]
  simp

/-- A token that takes something is found by one of the rules. -/
theorem exists_rule_of_lexeme {k : TokenKind} {taken after : List Char} (hne : taken ≠ [])
    (h : lexeme (taken ++ after) = (k, taken)) :
    ∃ r ∈ rules, r.2.Describes taken ∧ r.2.StopsAt after ∧ promote r.1 taken after = k := by
  unfold lexeme at h
  split at h
  · cases h
    exact absurd rfl hne
  · split at h
    · cases h
      exact absurd rfl hne
    · rename_i kind found hfound
      obtain ⟨hk, rfl⟩ := Prod.mk.inj h
      obtain ⟨p, hp, hmatch⟩ := exists_mem_of_longest? hfound
      obtain ⟨hdescribes, hstop⟩ := Pattern.match?_append_eq_some.1 hmatch
      rw [List.drop_left] at hk
      exact ⟨_, hp, hdescribes, hstop, hk⟩

/-- Promoting makes a keyword of a word or leaves the kind as it is. -/
theorem promote_cases (kind : TokenKind) (taken after : List Char) :
    promote kind taken after = kind ∨ promote kind taken after = .kwAnd ∨
      promote kind taken after = .kwOr := by
  unfold promote
  split
  · split
    · exact .inr (.inl rfl)
    · split
      · exact .inr (.inr rfl)
      · exact .inl rfl
  · exact .inl rfl

/-- Without whitespace behind it nothing is promoted. -/
theorem promote_of_not_blank {kind : TokenKind} {taken after : List Char}
    (h : after.head?.any isBlank = false) : promote kind taken after = kind := by
  rw [promote_eq, if_neg]
  rintro ⟨-, hblank⟩
  rw [h] at hblank
  cases hblank

/-- Runs are of whitespace or of the characters of words. -/
theorem stopsAt_of_rule {r : TokenKind × Pattern} (hr : r ∈ rules) {after : List Char}
    (hblank : ∀ c ∈ after.head?, isBlank c = false)
    (hword : ∀ c ∈ after.head?, isWordChar c = false) : r.2.StopsAt after := by
  simp only [rules, List.mem_cons, List.not_mem_nil, or_false] at hr
  rcases hr with rfl | rfl | rfl | rfl | rfl | rfl | rfl | rfl
  case inr.inr.inr.inr.inr.inr.inl => exact hblank
  case inr.inr.inr.inr.inr.inr.inr => exact hword
  all_goals trivial

end Lexicon

open Lexicon

namespace Token

/-- The token takes something, and is the next one of its own text with `after` behind it. -/
def StandsBefore (after : List Char) (t : Token) : Prop :=
  t.text ≠ "" ∧ ∃ k : TokenKind, t.kind = k ∧ lexeme (t.text.toList ++ after) = (k, t.text.toList)

namespace StandsBefore

variable {t : Token} {after after' : List Char}

/-- A token that stands before a text has characters. -/
theorem text_ne_nil (h : t.StandsBefore after) : t.text.toList ≠ [] := fun hnil =>
  h.1 (String.toList_inj.1 hnil)

/-- **What stands before a text is what one of the rules makes of it**, whose pattern cannot go on
into that text. -/
theorem iff_rule : t.StandsBefore after ↔ ∃ r ∈ rules,
    r.2.Describes t.text.toList ∧ r.2.StopsAt after ∧ t.kind = promote r.1 t.text.toList after := by
  constructor
  · intro h
    obtain ⟨k, hk, hlexeme⟩ := h.2
    obtain ⟨r, hr, htaken, hstop, hpromote⟩ := exists_rule_of_lexeme h.text_ne_nil hlexeme
    exact ⟨r, hr, htaken, hstop, by rw [hk, hpromote]⟩
  · rintro ⟨r, hr, htaken, hstop, hk⟩
    have hne := Pattern.match?_ne_nil (Pattern.match?_append_eq_some.2 ⟨htaken, hstop⟩)
    exact ⟨fun hnil => hne (by rw [hnil]; rfl), _, hk, lexeme_of_rule hr htaken hstop⟩

/-- Whatever takes something is of a kind with a width. -/
theorem isZeroWidth (h : t.StandsBefore after) : t.kind.isZeroWidth = false := by
  obtain ⟨r, hr, -, -, hk⟩ := iff_rule.1 h
  rw [hk]
  exact isZeroWidth_promote hr _ _

/-- **Of the text behind a token only the first character counts.** -/
theorem congr (h : t.StandsBefore after) (hhead : after.head? = after'.head?) :
    t.StandsBefore after' := by
  obtain ⟨r, hr, htaken, hstop, hk⟩ := iff_rule.1 h
  have hstop' : r.2.StopsAt after' := by
    cases hp : r.2 with
    | run member =>
      rw [hp] at hstop
      intro c hc
      exact hstop c (hhead ▸ hc)
    | symbol | enclosed => trivial
  refine iff_rule.2 ⟨r, hr, htaken, hstop', ?_⟩
  rw [hk, promote, promote, hhead]

/-- A token that is no keyword is the same at the end of a line. -/
theorem cut (h : t.StandsBefore after) (hand : t.kind ≠ .token .kwAnd)
    (hor : t.kind ≠ .token .kwOr) : t.StandsBefore [] := by
  obtain ⟨r, hr, htaken, -, hk⟩ := iff_rule.1 h
  refine iff_rule.2 ⟨r, hr, htaken, stopsAt_of_rule hr nofun nofun, ?_⟩
  rw [promote_of_not_blank rfl, hk]
  rcases promote_cases r.1 t.text.toList after with hsame | hkw | hkw
  · rw [hsame]
  · exact absurd (hk.trans (congrArg Kind.token hkw)) hand
  · exact absurd (hk.trans (congrArg Kind.token hkw)) hor

/-- A token at the end of a line is the same in front of a character that is neither of a word nor
of whitespace. -/
theorem before_sign (h : t.StandsBefore []) {c : Char} (hblank : isBlank c = false)
    (hword : isWordChar c = false) (cs : List Char) : t.StandsBefore (c :: cs) := by
  obtain ⟨r, hr, htaken, -, hk⟩ := iff_rule.1 h
  rw [promote_of_not_blank rfl] at hk
  refine iff_rule.2
    ⟨r, hr, htaken, stopsAt_of_rule hr (by simpa using hblank) (by simpa using hword), ?_⟩
  rw [hk, promote_of_not_blank (by simpa using hblank)]

end StandsBefore

end Token

/-! ## Tokens side by side -/

/-- The tokens stand side by side from byte `start` on, each of them as long as its text. -/
def Placed : Nat → List Token → Prop
  | _, [] => True
  | start, t :: ts =>
    t.span = ⟨start, Text.bytes t.text.toList⟩ ∧ Placed (start + Text.bytes t.text.toList) ts

/-- Each of the tokens is the next one of its own text with the texts of the others and `after`
behind it. -/
def Seamed (after : List Char) : List Token → Prop
  | [] => True
  | t :: ts => t.StandsBefore ((Token.joined ts).toList ++ after) ∧ Seamed after ts

/-- The tokens of a text that begins at byte `start`, up to the first without width. -/
def lexFrom (start : Nat) (cs : List Char) : List Token := (Reader.drain ⟨[], cs, start⟩).1

section

variable {start : Nat} {after after' : List Char} {ts us : List Token} {t : Token}

/-- Tokens are placed if the first ones are, and the others where those end. -/
theorem placed_append : Placed start (ts ++ us) ↔
    Placed start ts ∧ Placed (start + Text.bytes (Token.joined ts).toList) us := by
  induction ts generalizing start with
  | nil => simp [Placed]
  | cons t ts ih => simp [Placed, ih, and_assoc, Nat.add_assoc]

/-- Tokens are seamed if the first ones are in front of the others, and the others are. -/
theorem seamed_append : Seamed after (ts ++ us) ↔
    Seamed ((Token.joined us).toList ++ after) ts ∧ Seamed after us := by
  induction ts with
  | nil => simp [Seamed]
  | cons t ts ih => simp [Seamed, ih, and_assoc]

/-- Seamed tokens stay so behind another text that begins alike. -/
theorem Seamed.congr (h : Seamed after ts) (hhead : after.head? = after'.head?) :
    Seamed after' ts := by
  induction ts with
  | nil => trivial
  | cons t ts ih =>
    refine ⟨h.1.congr ?_, ih h.2⟩
    rw [List.head?_append, List.head?_append, hhead]

/-- Tokens that are seamed stay so behind another text if the last of them does. -/
theorem Seamed.change (h : Seamed after ts)
    (hlast : ∀ t ∈ ts.getLast?, t.StandsBefore after → t.StandsBefore after') :
    Seamed after' ts := by
  rcases List.eq_nil_or_concat ts with rfl | ⟨us, t, rfl⟩
  · trivial
  · rw [List.concat_eq_append] at h hlast ⊢
    obtain ⟨hus, ht⟩ := seamed_append.1 h
    have hbefore := hlast t (by simp) (by simpa [Seamed] using ht.1)
    refine seamed_append.2 ⟨hus.congr ?_, by simpa [Seamed] using hbefore⟩
    -- The text of the last token is all that those in front of it see.
    obtain ⟨c, cs, hc⟩ := List.exists_cons_of_ne_nil hbefore.text_ne_nil
    simp [hc]

/-! ### Reading them -/

/-- At the end of a text `Eof` is read. -/
theorem lexFrom_nil (start : Nat) : lexFrom start [] = [⟨TokenKind.eof, "", ⟨start, 0⟩⟩] := by
  have hnext : (Reader.next ⟨[], [], start⟩).1 = ⟨TokenKind.eof, "", ⟨start, 0⟩⟩ := rfl
  rw [lexFrom, Reader.drain_eq, hnext]
  rfl

/-- A token that stands before the rest of a text is read, and then the rest. -/
theorem lexFrom_cons (ht : t.StandsBefore after)
    (hspan : t.span = ⟨start, Text.bytes t.text.toList⟩) :
    lexFrom start (t.text.toList ++ after) =
      t :: lexFrom (start + Text.bytes t.text.toList) after := by
  obtain ⟨k, hk, hlexeme⟩ := ht.2
  have hwidth := ht.isZeroWidth
  obtain ⟨kind, text, span⟩ := t
  dsimp only at hk hspan hlexeme hwidth ⊢
  subst hk hspan
  rw [lexFrom, Reader.drain_eq]
  simp only [Reader.next, Reader.scan, hlexeme, hwidth, List.drop_left, String.ofList_toList]
  rfl

/-- **Tokens that are placed and seamed are read one after the other.** -/
theorem lexFrom_append (hplaced : Placed start ts) (hseamed : Seamed after ts) :
    lexFrom start ((Token.joined ts).toList ++ after) =
      ts ++ lexFrom (start + Text.bytes (Token.joined ts).toList) after := by
  induction ts generalizing start with
  | nil => rfl
  | cons t ts ih =>
    have hrest := ih hplaced.2 hseamed.2
    have htext : (Token.joined (t :: ts)).toList ++ after =
        t.text.toList ++ ((Token.joined ts).toList ++ after) := by simp
    have hbytes : start + Text.bytes (Token.joined (t :: ts)).toList =
        start + Text.bytes t.text.toList + Text.bytes (Token.joined ts).toList := by
      simp [Nat.add_assoc]
    rw [htext, hbytes, lexFrom_cons hseamed.1 hplaced.1, hrest, List.cons_append]

/-- A text is at its end, or no rule matches, or its first token stands in front of the rest. -/
theorem lexFrom_cases (start : Nat) (cs : List Char) :
    cs = [] ∨ lexFrom start cs = [⟨TokenKind.unknown, "", ⟨start, 0⟩⟩] ∨
    ∃ t after, cs = t.text.toList ++ after ∧ t.StandsBefore after ∧
      t.span = ⟨start, Text.bytes t.text.toList⟩ ∧
      lexFrom start cs = t :: lexFrom (start + Text.bytes t.text.toList) after := by
  rcases lexeme_cases cs with ⟨hnil, -⟩ | ⟨-, hunknown, -⟩ | ⟨-, hne, hprefix⟩
  · exact .inl hnil
  · have hnext : (Reader.next ⟨[], cs, start⟩).1 = ⟨TokenKind.unknown, "", ⟨start, 0⟩⟩ := by
      simp [Reader.next, Reader.scan, hunknown]
    refine .inr (.inl ?_)
    rw [lexFrom, Reader.drain_eq, hnext]
    rfl
  · obtain ⟨after, hafter⟩ := hprefix
    rcases hlexeme : lexeme cs with ⟨k, taken⟩
    rw [hlexeme] at hne hafter
    subst hafter
    let t : Token := ⟨k, String.ofList taken, ⟨start, Text.bytes taken⟩⟩
    have htext : t.text.toList = taken := String.toList_ofList
    have hstands : t.StandsBefore after := by
      refine ⟨fun hnil => hne ?_, k, rfl, by rw [htext, hlexeme]⟩
      rw [← htext, hnil]
      rfl
    have hspan : t.span = ⟨start, Text.bytes t.text.toList⟩ := by rw [htext]
    refine .inr (.inr ⟨t, after, by rw [htext], hstands, hspan, ?_⟩)
    rw [← lexFrom_cons hstands hspan, htext]

/-- **Tokens of a text that are not its last one are placed and seamed**, and what is left of the
text behind them has the other tokens. -/
theorem exists_seamed {cs : List Char} (h : lexFrom start cs = ts ++ us) (hus : us ≠ []) :
    ∃ after, cs = (Token.joined ts).toList ++ after ∧ Placed start ts ∧ Seamed after ts ∧
      lexFrom (start + Text.bytes (Token.joined ts).toList) after = us := by
  induction ts generalizing start cs with
  | nil => exact ⟨cs, rfl, trivial, trivial, h⟩
  | cons t ts ih =>
    have hmore : ∀ last, lexFrom start cs ≠ [last] := by
      intro last hlast
      rw [hlast, List.cons_append] at h
      have hnil : ts ++ us = [] := (List.cons.inj h).2.symm
      exact hus (List.append_eq_nil_iff.1 hnil).2
    rcases lexFrom_cases start cs with rfl | hunknown | ⟨first, rest, rfl, hfirst, hspan, hrest⟩
    · exact absurd (lexFrom_nil start) (hmore _)
    · exact absurd hunknown (hmore _)
    · rw [hrest, List.cons_append] at h
      obtain ⟨rfl, htail⟩ := List.cons.inj h
      obtain ⟨after, rfl, hplaced, hseamed, hafter⟩ := ih htail
      refine ⟨after, by simp, ⟨hspan, hplaced⟩, ⟨hfirst, hseamed⟩, ?_⟩
      rw [← hafter]
      simp [Nat.add_assoc]

end

/-! ## Lines that are read to their end -/

/-- The tokens in front of `Eof` are placed from the first byte on, are seamed with nothing behind
them, and their texts are the line. -/
theorem seamed_of_lex {line : String} {ts : List Token} {t : Token} (h : lex line = ts ++ [t])
    (heof : t.kind = .token .eof) :
    Placed 0 ts ∧ Seamed [] ts ∧ Token.joined ts = line := by
  obtain ⟨after, hline, hplaced, hseamed, hafter⟩ := exists_seamed h (List.cons_ne_nil t [])
  obtain rfl : after = [] := by
    rcases lexFrom_cases (0 + Text.bytes (Token.joined ts).toList) after with
      hnil | hunknown | ⟨first, rest, -, hfirst, -, hrest⟩
    · exact hnil
    · rw [hafter] at hunknown
      obtain rfl := List.singleton_inj.1 hunknown
      cases heof
    · rw [hafter] at hrest
      obtain ⟨rfl, -⟩ := List.cons.inj hrest
      have hwidth := hfirst.isZeroWidth
      rw [heof] at hwidth
      cases hwidth
  refine ⟨hplaced, hseamed, ?_⟩
  rw [← String.toList_inj, hline, List.append_nil]

/-- **Tokens that are placed from the first byte on and seamed with nothing behind them are the
tokens of their line** up to `Eof`. -/
theorem lex_of_seamed {ts : List Token} (hplaced : Placed 0 ts) (hseamed : Seamed [] ts) :
    ∃ t : Token, lex (Token.joined ts) = ts ++ [t] ∧ t.kind = .token .eof := by
  have hlex := lexFrom_append hplaced hseamed
  rw [List.append_nil, lexFrom_nil] at hlex
  exact ⟨_, hlex, rfl⟩

end BoolQuery
