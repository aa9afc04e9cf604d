/-
# Why a line is no query

| cause | the token it points at |
| --- | --- |
| the grammar matches no start of the line | the token furthest into the line that was not the one asked for |
| the grammar matches a start of the line only | the token after that start |
| productions are nested deeper than the limit | none |
-/

import BoolQuery.Token

namespace BoolQuery

/-- Why a line is no query. -/
inductive Rejection
  | noMatch (found : Kind) (span : Span)
  | trailingInput (found : Kind) (text : String) (span : Span)
  | nestingLimit
  deriving DecidableEq, Repr

namespace Rejection

/-- The reason in words. -/
def message : Rejection → String
  | noMatch .. => "recognizer failed"
  | trailingInput .. => "unexpected tokens at end of input"
  | nestingLimit => "recursion limit exceeded"

/-- Where in the line the reason lies, if it lies at a token. -/
def span? : Rejection → Option Span
  | noMatch _ span => some span
  | trailingInput _ _ span => some span
  | nestingLimit => none

/-- What is said about the place in the line. -/
def label : Rejection → String
  | noMatch found _ => found.describe ++ " not expected here"
  | trailingInput found _ _ => found.describe ++ " follows a complete query"
  | nestingLimit => "nested too deeply"

end Rejection

/-- The one-line answer for a line: whether it is a query, and if not, why. -/
def verdict {α : Type} : Except Rejection α → String
  | .ok _ => "true"
  | .error why => "false: " ++ why.message

end BoolQuery
