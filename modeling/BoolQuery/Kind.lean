/-
# Kinds of tokens and of derivation nodes

One numbering serves both: tokens take the numbers 0 to 11, the productions of the grammar 12 to
20, and 21 closes the range.

| numbers | kinds |
| ---: | --- |
| 0 – 3 | `IncludeOp`, `ExcludeOp`, `ParenOpen`, `ParenClose` |
| 4 – 6 | `Phrase`, `StarOp`, `Whitespace` |
| 7 – 9 | `KwAnd`, `KwOr`, `Word` |
| 10, 11 | `Eof`, `Unknown`: without width |
| 12 – 16 | `WordSequence`, `PhraseOrWords`, `Exclusion`, `Inclusion`, `PrefixTerm` |
| 17 – 20 | `Term`, `AndTerm`, `OrTerm`, `Query` |
| 21 | the end mark, neither a token nor a node |
-/

namespace BoolQuery

/-- What a piece of a line is, as the lexical rules tell it. -/
inductive TokenKind
  | includeOp | excludeOp | parenOpen | parenClose
  | phrase | starOp | whitespace
  | kwAnd | kwOr | word
  | eof | unknown
  deriving DecidableEq, Repr

/-- The productions of the grammar, one for each kind of inner node of a derivation. -/
inductive NodeKind
  | wordSequence | phraseOrWords | exclusion | inclusion | prefixTerm
  | term | andTerm | orTerm | query
  deriving DecidableEq, Repr

/-- Any kind: of a token, of a node, or the mark that closes the numbering. -/
inductive Kind
  | token (kind : TokenKind)
  | node (kind : NodeKind)
  | endMark
  deriving DecidableEq, Repr

instance : Coe TokenKind Kind := ⟨.token⟩

instance : Coe NodeKind Kind := ⟨.node⟩

namespace TokenKind

/-- All token kinds, in the order of their numbers. -/
def all : List TokenKind :=
  [includeOp, excludeOp, parenOpen, parenClose, phrase, starOp, whitespace, kwAnd, kwOr, word,
    eof, unknown]

/-- The name of a token kind in every listing. -/
def name : TokenKind → String
  | includeOp => "IncludeOp"
  | excludeOp => "ExcludeOp"
  | parenOpen => "ParenOpen"
  | parenClose => "ParenClose"
  | phrase => "Phrase"
  | starOp => "StarOp"
  | whitespace => "Whitespace"
  | kwAnd => "KwAnd"
  | kwOr => "KwOr"
  | word => "Word"
  | eof => "Eof"
  | unknown => "Unknown"

/-- The wording of a token kind in an explanation for the writer of the query. -/
def describe : TokenKind → String
  | includeOp => "`+`"
  | excludeOp => "`-`"
  | parenOpen => "`(`"
  | parenClose => "`)`"
  | phrase => "phrase"
  | starOp => "`*`"
  | whitespace => "whitespace"
  | kwAnd => "`AND`"
  | kwOr => "`OR`"
  | word => "word"
  | eof => "end of input"
  | unknown => "unrecognized character"

end TokenKind

namespace NodeKind

/-- All node kinds, in the order of their numbers. -/
def all : List NodeKind :=
  [wordSequence, phraseOrWords, exclusion, inclusion, prefixTerm, term, andTerm, orTerm, query]

/-- The name of a node kind in every listing. -/
def name : NodeKind → String
  | wordSequence => "WordSequence"
  | phraseOrWords => "PhraseOrWords"
  | exclusion => "Exclusion"
  | inclusion => "Inclusion"
  | prefixTerm => "PrefixTerm"
  | term => "Term"
  | andTerm => "AndTerm"
  | orTerm => "OrTerm"
  | query => "Query"

end NodeKind

namespace Kind

/-- Every kind, the end mark included, in the order of their numbers. -/
def all : List Kind :=
  TokenKind.all.map token ++ NodeKind.all.map node ++ [endMark]

/-- The number of a kind. -/
def raw (k : Kind) : Nat := all.idxOf k

/-- The kind with a number. The number of the end mark names no kind of a tree. -/
def ofRaw? (n : Nat) : Option Kind :=
  if n < raw endMark then all[n]? else none

/-- The name of a kind in every listing. -/
def name : Kind → String
  | token k => k.name
  | node k => k.name
  | endMark => "__LAST"

/-- The kind that a name stands for. -/
def ofName? (s : String) : Option Kind := all.find? fun k => k.name == s

/-- The lexical rules produce it. -/
def isToken : Kind → Bool
  | token _ => true
  | _ => false

/-- A production of the grammar produces it. -/
def isNode : Kind → Bool
  | node _ => true
  | _ => false

/-- A tree listing leaves it out unless asked for. -/
def isTrivia (k : Kind) : Bool := k == token .whitespace

/-- Tokens of this kind take nothing of the line. -/
def isZeroWidth (k : Kind) : Bool := k == token .eof || k == token .unknown

/-- The wording of a kind in an explanation for the writer of the query. -/
def describe : Kind → String
  | token k => k.describe
  | _ => "syntax node"

/-- A kind is found by its number; the end mark has none. -/
theorem ofRaw?_raw {k : Kind} (h : k ≠ endMark) : ofRaw? k.raw = some k := by
  cases k with
  | token k => cases k <;> rfl
  | node k => cases k <;> rfl
  | endMark => exact absurd rfl h

/-- A kind is found by its name. -/
theorem ofName?_name (k : Kind) : ofName? k.name = some k := by
  cases k with
  | token k => cases k <;> decide
  | node k => cases k <;> decide
  | endMark => decide

end Kind

end BoolQuery
