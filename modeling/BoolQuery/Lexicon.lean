/-
# Lexical rules

At each place of a line the rule with the longest match decides the token. No two rules match at
the same place, since their first characters differ.

| kind | text |
| --- | --- |
| `IncludeOp`, `ExcludeOp`, `ParenOpen`, `ParenClose`, `StarOp` | `+`, `-`, `(`, `)`, `*` |
| `Phrase` | a double quote, one or more other characters, a double quote |
| `Whitespace` | one or more of space, tab, line feed, U+000B, U+000C, carriage return |
| `Word` | one or more letters, digits or signs out of `@ % $ &` |

A `Word` that is `AND` or `OR` is a keyword if whitespace follows. At the end of the line the token
is `Eof`, and where no rule matches it is `Unknown`; both are without width.
-/

import BoolQuery.Token
import BoolQuery.Unicode.Alphabetic
import BoolQuery.Unicode.DecimalDigit

namespace BoolQuery
namespace Lexicon

/-- The characters of the rule of whitespace. -/
def isBlank (c : Char) : Bool :=
  c == ' ' || c == '\t' || c == '\n' || c == '\x0b' || c == '\x0c' || c == '\r'

/-- The characters that make a keyword of a word in front of them. -/
def endsKeyword (c : Char) : Bool :=
  [' ', '\t', '\r', '\n', '\x0b', '\x0c'].contains c

/-- Behind a keyword stands what the rule of whitespace takes, and nothing else. -/
theorem endsKeyword_eq : endsKeyword = isBlank := by
  funext c
  simp only [endsKeyword, isBlank, List.contains_cons, List.contains_nil, Bool.or_false]
  ac_rfl

/-- The characters of words: letters, digits and four signs. In ASCII they are told without the
tables. -/
def isWordChar (c : Char) : Bool :=
  if c.toNat < 0x80 then
    c.isAlphanum || c == '@' || c == '%' || c == '$' || c == '&'
  else
    Unicode.alphabetic.contains c || Unicode.decimalDigit.contains c

/-- What the text of a token may look like. -/
inductive Pattern
  /-- One character. -/
  | symbol (c : Char)
  /-- One or more characters between two marks, none of them the mark. -/
  | enclosed (mark : Char)
  /-- One or more characters of a class. -/
  | run (member : Char → Bool)

/-- The longest match of a pattern at the start of a text. -/
def Pattern.match? : Pattern → List Char → Option (List Char)
  | _, [] => none
  | symbol c, d :: _ => if d = c then some [d] else none
  | enclosed mark, c :: cs =>
    if c = mark then
      match cs.takeWhile (· != mark), cs.dropWhile (· != mark) with
      | i :: inner, closing :: _ => some (c :: i :: inner ++ [closing])
      | _, _ => none
    else none
  | run member, c :: cs => if member c then some (c :: cs.takeWhile member) else none

/-- The lexical rules. -/
def rules : List (TokenKind × Pattern) :=
  [(.includeOp, .symbol '+'),
   (.excludeOp, .symbol '-'),
   (.parenOpen, .symbol '('),
   (.parenClose, .symbol ')'),
   (.phrase, .enclosed '"'),
   (.starOp, .symbol '*'),
   (.whitespace, .run isBlank),
   (.word, .run isWordChar)]

/-- The rule with the longest match, and that match. Of two equally long ones the first rule
wins. -/
def longest? (cs : List Char) : List (TokenKind × Pattern) → Option (TokenKind × List Char)
  | [] => none
  | (kind, pattern) :: rest =>
    match pattern.match? cs, longest? cs rest with
    | none, best => best
    | some taken, none => some (kind, taken)
    | some taken, some best =>
      if best.2.length > taken.length then some best else some (kind, taken)

/-- A word that spells a keyword is one if whitespace follows it. -/
def promote (kind : TokenKind) (taken after : List Char) : TokenKind :=
  if kind = .word ∧ after.head?.any endsKeyword then
    if taken = ['A', 'N', 'D'] then .kwAnd
    else if taken = ['O', 'R'] then .kwOr
    else kind
  else kind

/-- A word is promoted in front of what the rule of whitespace takes. -/
theorem promote_eq (kind : TokenKind) (taken after : List Char) :
    promote kind taken after =
      if kind = .word ∧ after.head?.any isBlank then
        if taken = ['A', 'N', 'D'] then .kwAnd
        else if taken = ['O', 'R'] then .kwOr
        else kind
      else kind := by
  rw [promote, endsKeyword_eq]

/-- The kind of the next token of a text and the characters it takes. -/
def lexeme (cs : List Char) : TokenKind × List Char :=
  if cs = [] then (.eof, [])
  else match longest? cs rules with
    | none => (.unknown, [])
    | some (kind, taken) => (promote kind taken (cs.drop taken.length), taken)

theorem Pattern.match?_ne_nil {p : Pattern} {cs taken : List Char}
    (h : p.match? cs = some taken) : taken ≠ [] := by
  unfold match? at h
  split at h
  · simp at h
  · split at h <;> simp at h
    simp [← h]
  · split at h
    · split at h <;> simp at h
      simp [← h]
    · simp at h
  · split at h <;> simp at h
    simp [← h]

/-- The longest match is the match of one of the rules. -/
theorem exists_mem_of_longest? {cs : List Char} {rs : List (TokenKind × Pattern)}
    {best : TokenKind × List Char} (h : longest? cs rs = some best) :
    ∃ p, (best.1, p) ∈ rs ∧ p.match? cs = some best.2 := by
  induction rs generalizing best with
  | nil => simp [longest?] at h
  | cons r rs ih =>
    obtain ⟨kind, pattern⟩ := r
    unfold longest? at h
    split at h
    · obtain ⟨p, hp, hm⟩ := ih h
      exact ⟨p, .tail _ hp, hm⟩
    · rename_i taken ht _
      obtain rfl := Option.some.inj h
      exact ⟨pattern, .head _, ht⟩
    · rename_i taken other ht ho
      split at h
      · obtain rfl := Option.some.inj h
        obtain ⟨p, hp, hm⟩ := ih ho
        exact ⟨p, .tail _ hp, hm⟩
      · obtain rfl := Option.some.inj h
        exact ⟨pattern, .head _, ht⟩

theorem longest?_ne_nil {cs : List Char} {rs : List (TokenKind × Pattern)}
    {best : TokenKind × List Char} (h : longest? cs rs = some best) : best.2 ≠ [] := by
  obtain ⟨p, _, hm⟩ := exists_mem_of_longest? h
  exact Pattern.match?_ne_nil hm

/-- Every lexical rule is about a kind with a width, keyword or not. -/
theorem isZeroWidth_promote {kind : TokenKind} {p : Pattern} (h : (kind, p) ∈ rules)
    (taken after : List Char) :
    (Kind.token (promote kind taken after)).isZeroWidth = false := by
  have hk : kind ≠ .eof ∧ kind ≠ .unknown := by
    simp only [rules, List.mem_cons, Prod.mk.injEq, List.not_mem_nil, or_false] at h
    rcases h with h | h | h | h | h | h | h | h <;> simp [h.1]
  unfold promote
  split
  · split
    · rfl
    · split
      · rfl
      · simp [Kind.isZeroWidth, hk]
  · simp [Kind.isZeroWidth, hk]

/-- A lexeme of a kind without width takes nothing. -/
theorem lexeme_eq_nil {cs : List Char} (h : (Kind.token (lexeme cs).1).isZeroWidth = true) :
    (lexeme cs).2 = [] := by
  unfold lexeme at h ⊢
  split
  · rfl
  · rename_i hcs
    rw [if_neg hcs] at h
    split
    · rfl
    · rename_i kind taken hl
      obtain ⟨p, hp, _⟩ := exists_mem_of_longest? hl
      rw [hl] at h
      simp [isZeroWidth_promote hp] at h

/-- A lexeme takes nothing only at the end of a text and where no rule matches. -/
theorem lexeme_shrinks (cs : List Char) :
    lexeme cs = (.eof, []) ∨ lexeme cs = (.unknown, []) ∨
      (cs.drop (lexeme cs).2.length).length < cs.length := by
  unfold lexeme
  split
  · exact .inl rfl
  · split
    · exact .inr (.inl rfl)
    · rename_i hcs _ kind taken h
      have ht := List.length_pos_iff.2 (longest?_ne_nil h)
      have hc := List.length_pos_iff.2 hcs
      refine .inr (.inr ?_)
      simp only [List.length_drop] at *
      omega

end Lexicon
end BoolQuery
