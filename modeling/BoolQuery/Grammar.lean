/-
# The grammar of queries

    WordSequence  := word (whitespace word)*
    PhraseOrWords := phrase | WordSequence
    Exclusion     := exclude_op word | exclude_op phrase
    Inclusion     := include_op word | include_op phrase
    PrefixTerm    := word star_op
    Term          := Exclusion | Inclusion | PrefixTerm | PhraseOrWords
                   | lparen whitespace? Query whitespace? rparen
    AndTerm       := Term (whitespace and whitespace Term)*
    OrTerm        := AndTerm (whitespace or whitespace AndTerm)*
    Query         := whitespace? OrTerm whitespace?

The table below is this grammar as data. Of several alternatives the first one that matches is
taken.
-/

import BoolQuery.Kind

namespace BoolQuery
namespace Grammar

/-- One step of a right-hand side. -/
inductive Designator
  /-- One token of the kind. -/
  | terminal (kind : Kind)
  /-- The production of the kind. -/
  | rule (kind : Kind)
  /-- The steps in order, or nothing. -/
  | optional (steps : List Designator)

/-- How a production is put together. -/
inductive Body
  /-- The first of the alternatives that matches. -/
  | choice (alternatives : List (List Designator))
  /-- The head once, and then the tail as often as it matches. -/
  | repetition (head tail : List Designator)

/-- One token of a token kind. -/
abbrev tok (kind : TokenKind) : Designator := .terminal kind

/-- The production of a node kind. -/
abbrev sub (kind : NodeKind) : Designator := .rule kind

/-- Whitespace that may be missing. -/
abbrev space? : Designator := .optional [tok .whitespace]

/-- The productions. -/
def body : NodeKind → Body
  | .wordSequence => .repetition [tok .word] [tok .whitespace, tok .word]
  | .phraseOrWords => .choice [[tok .phrase], [sub .wordSequence]]
  | .exclusion => .choice [[tok .excludeOp, tok .word], [tok .excludeOp, tok .phrase]]
  | .inclusion => .choice [[tok .includeOp, tok .word], [tok .includeOp, tok .phrase]]
  | .prefixTerm => .choice [[tok .word, tok .starOp]]
  | .term => .choice
      [[sub .exclusion], [sub .inclusion], [sub .prefixTerm], [sub .phraseOrWords],
       [tok .parenOpen, space?, sub .query, space?, tok .parenClose]]
  | .andTerm => .repetition [sub .term]
      [tok .whitespace, tok .kwAnd, tok .whitespace, sub .term]
  | .orTerm => .repetition [sub .andTerm]
      [tok .whitespace, tok .kwOr, tok .whitespace, sub .andTerm]
  | .query => .choice [[space?, sub .orTerm, space?]]

end Grammar
end BoolQuery
