/-
# Lexical rules tried in order

A line can be cut without asking for the longest match: the rules are tried in one order, and the
first that matches decides. The keywords then have rules of their own, in front of the rule of
words.

| kind | takes |
| --- | --- |
| `IncludeOp`, `ExcludeOp`, `ParenOpen`, `ParenClose` | the sign |
| `Phrase` | a double quote, one or more other characters, a double quote |
| `StarOp` | the sign |
| `Whitespace` | all whitespace there is |
| `KwAnd`, `KwOr` | the letters, if whitespace follows them |
| `Word` | all characters of words there are |
| `Eof` | nothing, at the end |
| `Unknown` | nothing, anywhere else |

Both ways cut every line into the same tokens. Two patterns never match at the same place, so that
the first match is the longest one. And whitespace belongs to no word, so that a keyword in front of
whitespace is a longest word, whereas in `ANDROID` neither way sees a keyword.
-/

import BoolQuery.Proofs.Lexing.Cut

namespace BoolQuery
namespace Lexicon

/-- A lexical rule that tells what it takes without a look at the other rules. -/
inductive Rule
  | pattern (p : Pattern)
  /-- Letters with whitespace behind them, which is not taken. -/
  | keyword (letters : List Char)
  /-- The end of the text. -/
  | ending

/-- What a rule takes from the start of a text. -/
def Rule.match? : Rule → List Char → Option (List Char)
  | pattern p, cs => p.match? cs
  | keyword letters, cs =>
    if letters <+: cs ∧ (cs.drop letters.length).head?.any isBlank then some letters else none
  | ending, cs => if cs = [] then some [] else none

/-- The lexical rules in the order in which they are tried. -/
def orderedRules : List (TokenKind × Rule) :=
  [(.includeOp, .pattern (.symbol '+')),
   (.excludeOp, .pattern (.symbol '-')),
   (.parenOpen, .pattern (.symbol '(')),
   (.parenClose, .pattern (.symbol ')')),
   (.phrase, .pattern (.enclosed '"')),
   (.starOp, .pattern (.symbol '*')),
   (.whitespace, .pattern (.run isBlank)),
   (.kwAnd, .keyword ['A', 'N', 'D']),
   (.kwOr, .keyword ['O', 'R']),
   (.word, .pattern (.run isWordChar)),
   (.eof, .ending)]

/-- The kind and the characters of the first rule that matches, if one does. -/
def first? (cs : List Char) (rs : List (TokenKind × Rule)) : Option (TokenKind × List Char) :=
  rs.findSome? fun r => (r.2.match? cs).map (Prod.mk r.1)

/-- The kind of the next token and the characters it takes, by the first rule that matches. -/
def firstLexeme (cs : List Char) : TokenKind × List Char :=
  (first? cs orderedRules).getD (.unknown, [])

/-! ## Patterns exclude each other -/

/-- The characters with which a match begins. -/
def Pattern.opens : Pattern → Char → Bool
  | symbol c, d => d == c
  | enclosed mark, d => d == mark
  | run member, d => member d

/-- No pattern matches at the end of a text. -/
theorem Pattern.match?_nil (p : Pattern) : p.match? [] = none := by
  cases p <;> rfl

/-- A pattern does not match where no match of it begins. -/
theorem Pattern.match?_cons_eq_none {p : Pattern} {c : Char} (h : p.opens c = false)
    (cs : List Char) : p.match? (c :: cs) = none := by
  cases p <;> simp_all [match?, opens]

/-- A blank belongs to no word. -/
theorem isWordChar_of_isBlank {c : Char} (h : isBlank c = true) : isWordChar c = false := by
  simp only [isBlank, Bool.or_eq_true, beq_iff_eq] at h
  rcases h with ((((rfl | rfl) | rfl) | rfl) | rfl) | rfl <;> decide

/-- No character begins matches of two rules. -/
theorem opens_of_rules :
    rules.Pairwise fun r s => ∀ c, r.2.opens c = true → s.2.opens c = false := by
  have hsigns :
      ['+', '-', '(', ')', '"', '*'].all (fun c => !isBlank c && !isWordChar c) = true := by
    decide
  simp only [List.all_cons, Bool.and_eq_true, Bool.not_eq_true'] at hsigns
  simpa [rules, Pattern.opens, hsigns] using fun _ => isWordChar_of_isBlank

/-- At one place at most one rule matches. -/
theorem rules_exclusive (cs : List Char) :
    rules.Pairwise fun r s => r.2.match? cs = none ∨ s.2.match? cs = none := by
  cases cs with
  | nil => exact opens_of_rules.imp fun _ => .inl (Pattern.match?_nil _)
  | cons c cs =>
    refine opens_of_rules.imp fun {r s} h => ?_
    cases hr : r.2.opens c with
    | false => exact .inl (Pattern.match?_cons_eq_none hr cs)
    | true => exact .inr (Pattern.match?_cons_eq_none (h c hr) cs)

/-- Among rules that exclude each other the longest match is the first. -/
theorem longest?_eq_findSome? {cs : List Char} {rs : List (TokenKind × Pattern)}
    (h : rs.Pairwise fun r s => r.2.match? cs = none ∨ s.2.match? cs = none) :
    longest? cs rs = rs.findSome? fun r => (r.2.match? cs).map (Prod.mk r.1) := by
  induction rs with
  | nil => rfl
  | cons r rs ih =>
    rw [List.pairwise_cons] at h
    obtain ⟨kind, pattern⟩ := r
    have hrest := ih h.2
    cases hmatch : pattern.match? cs with
    | none => simpa [longest?, hmatch] using hrest
    | some taken =>
      have hnone : longest? cs rs = none := by
        rw [hrest, List.findSome?_eq_none_iff]
        intro s hs
        simpa [hmatch] using h.1 s hs
      simp [longest?, hmatch, hnone]

/-! ## Keywords -/

/-- A word ends where whitespace follows. -/
theorem match?_run_append {letters after : List Char} (hne : letters ≠ [])
    (hword : letters.all isWordChar = true) (hafter : after.head?.any isBlank = true) :
    (Pattern.run isWordChar).match? (letters ++ after) = some letters := by
  obtain ⟨c, cs, rfl⟩ := List.exists_cons_of_ne_nil hne
  rw [List.all_eq_true, List.forall_mem_cons] at hword
  have hstop : after.takeWhile isWordChar = [] := by
    cases after with
    | nil => rfl
    | cons d ds => exact List.takeWhile_cons_of_neg (by simp [isWordChar_of_isBlank hafter])
  simp [Pattern.match?, hword.1, List.takeWhile_append_of_pos hword.2, hstop]

/-- **A keyword is a word of greatest length** that is spelt so and has whitespace behind it. -/
theorem match?_keyword {letters : List Char} (hne : letters ≠ [])
    (hword : letters.all isWordChar = true) (cs : List Char) :
    (Rule.keyword letters).match? cs =
      ((Pattern.run isWordChar).match? cs).filter fun taken =>
        taken = letters ∧ (cs.drop taken.length).head?.any isBlank := by
  have hrun : letters <+: cs ∧ (cs.drop letters.length).head?.any isBlank →
      (Pattern.run isWordChar).match? cs = some letters := by
    rintro ⟨⟨after, rfl⟩, hafter⟩
    rw [List.drop_left] at hafter
    exact match?_run_append hne hword hafter
  rw [Rule.match?]
  cases hmatch : (Pattern.run isWordChar).match? cs with
  | none =>
    rw [hmatch] at hrun
    exact if_neg fun h => nomatch hrun h
  | some taken =>
    rw [hmatch] at hrun
    by_cases hspelt : taken = letters
    · subst hspelt
      simp [Option.filter, Pattern.match?_prefix hmatch]
    · rw [if_neg fun h => hspelt (Option.some.inj (hrun h))]
      simp [Option.filter, hspelt]

/-- The rules of the keywords, tried before the rule of words, do what promoting a word does. -/
theorem first?_words {cs : List Char} (hcs : cs ≠ []) :
    first? cs [(.kwAnd, .keyword ['A', 'N', 'D']), (.kwOr, .keyword ['O', 'R']),
        (.word, .pattern (.run isWordChar)), (.eof, .ending)] =
      ((Pattern.run isWordChar).match? cs).map fun taken =>
        (promote .word taken (cs.drop taken.length), taken) := by
  have hand := @match?_keyword ['A', 'N', 'D'] (by decide) (by decide) cs
  have hor := @match?_keyword ['O', 'R'] (by decide) (by decide) cs
  have hending : Rule.ending.match? cs = none := if_neg hcs
  have hpattern : (Rule.pattern (.run isWordChar)).match? cs =
      (Pattern.run isWordChar).match? cs := rfl
  simp only [first?, List.findSome?_cons, List.findSome?_nil, hand, hor, hending, hpattern]
  cases (Pattern.run isWordChar).match? cs with
  | none => rfl
  | some taken =>
    simp only [Option.filter, promote_eq, Option.map_some]
    by_cases hblank : (cs.drop taken.length).head?.any isBlank = true
    · simp only [hblank]
      by_cases htand : taken = ['A', 'N', 'D']
      · simp [htand]
      · by_cases htor : taken = ['O', 'R'] <;> simp [htand, htor]
    · simp only [hblank]
      simp

/-- What the rules but the one of words say of the next token. -/
def firstSign? (cs : List Char) : Option (TokenKind × List Char) :=
  rules.dropLast.findSome? fun r => (r.2.match? cs).map (Prod.mk r.1)

/-- The rules but the one of words give no word. -/
theorem firstSign?_ne_word {cs : List Char} {found : TokenKind × List Char}
    (h : firstSign? cs = some found) : found.1 ≠ .word := by
  obtain ⟨r, hr, hmatch⟩ := List.exists_of_findSome?_eq_some h
  obtain ⟨taken, -, rfl⟩ := Option.map_eq_some_iff.1 hmatch
  have hkinds : ∀ s ∈ rules.dropLast, s.1 ≠ .word := by
    simp [rules]
  exact hkinds r hr

/-- The longest match is the one of the rules before words, or else a word. -/
theorem longest?_rules (cs : List Char) :
    longest? cs rules =
      (firstSign? cs).or (((Pattern.run isWordChar).match? cs).map (Prod.mk .word)) := by
  have hrules : rules = rules.dropLast ++ [(.word, .run isWordChar)] := rfl
  rw [longest?_eq_findSome? (rules_exclusive cs), hrules, List.findSome?_append,
    List.findSome?_singleton]
  rfl

/-- The first rule that matches is one before the keywords, or else a word that may be a keyword. -/
theorem first?_orderedRules {cs : List Char} (hcs : cs ≠ []) :
    first? cs orderedRules =
      (firstSign? cs).or (((Pattern.run isWordChar).match? cs).map fun taken =>
        (promote .word taken (cs.drop taken.length), taken)) := by
  have hordered : orderedRules = rules.dropLast.map (Prod.map id Rule.pattern) ++
      [(.kwAnd, .keyword ['A', 'N', 'D']), (.kwOr, .keyword ['O', 'R']),
        (.word, .pattern (.run isWordChar)), (.eof, .ending)] := rfl
  rw [hordered, first?, List.findSome?_append, List.findSome?_map, ← first?, first?_words hcs]
  rfl

/-- **The first rule that matches gives the token that the longest match gives.** -/
theorem lexeme_eq_firstLexeme (cs : List Char) : lexeme cs = firstLexeme cs := by
  by_cases hcs : cs = []
  · subst hcs
    rfl
  rw [lexeme, if_neg hcs, longest?_rules, firstLexeme, first?_orderedRules hcs]
  cases hsign : firstSign? cs with
  | some found => simp [promote, firstSign?_ne_word hsign]
  | none => cases (Pattern.run isWordChar).match? cs <;> rfl

example : firstLexeme "AND\tb".toList = (.kwAnd, "AND".toList) ∧
    firstLexeme "AND(b".toList = (.word, "AND".toList) ∧
    firstLexeme "ANDROID b".toList = (.word, "ANDROID".toList) := by decide

/-- A first match with a width takes something. -/
theorem firstLexeme_shrinks {cs : List Char}
    (h : (Kind.token (firstLexeme cs).1).isZeroWidth = false) :
    (cs.drop (firstLexeme cs).2.length).length < cs.length := by
  rw [← lexeme_eq_firstLexeme] at h ⊢
  rcases lexeme_shrinks cs with heof | hunknown | hlt
  · rw [heof] at h
    cases h
  · rw [hunknown] at h
    cases h
  · exact hlt

end Lexicon

/-- All tokens of a text whose first character stands at byte `offset`, each by the first lexical
rule that matches, up to the first token without width. -/
def lexInOrder (offset : Nat) (cs : List Char) : List Token :=
  let found := Lexicon.firstLexeme cs
  let token : Token := ⟨found.1, String.ofList found.2, ⟨offset, Text.bytes found.2⟩⟩
  if _h : (Kind.token found.1).isZeroWidth then [token]
  else token :: lexInOrder (offset + Text.bytes found.2) (cs.drop found.2.length)
termination_by cs.length
decreasing_by exact Lexicon.firstLexeme_shrinks (by simpa using _h)

/-- A reader to which nothing was given back drains the tokens that the rules in order give. -/
theorem Reader.drain_eq_lexInOrder (rest : List Char) (offset : Nat) :
    (drain ⟨[], rest, offset⟩).1 = lexInOrder offset rest := by
  rw [drain_eq, lexInOrder, ← Lexicon.lexeme_eq_firstLexeme]
  by_cases hwidth : (Kind.token (Lexicon.lexeme rest).1).isZeroWidth = true
  · have hnext : (next ⟨[], rest, offset⟩).1.kind.isZeroWidth = true := hwidth
    rw [if_pos hnext, dif_pos hwidth]
    rfl
  · have hnext : ¬ (next ⟨[], rest, offset⟩).1.kind.isZeroWidth = true := hwidth
    have hlt := @size_next_lt ⟨[], rest, offset⟩ (by simpa using hnext)
    rw [if_neg hnext, dif_neg hwidth, ← drain_eq_lexInOrder]
    rfl
termination_by size ⟨[], rest, offset⟩

/-- **The tokens of a line are those that the lexical rules give when they are tried in order**, the
first that matches at each place. -/
theorem lex_eq_lexInOrder (line : String) : lex line = lexInOrder 0 line.toList :=
  Reader.drain_eq_lexInOrder line.toList 0

end BoolQuery
