/-
# Explaining a rejection

A rejection that points at a token is shown as a snippet of the line; one that does not is its
message alone, never in colour.
-/

import BoolQuery.Rejection
import BoolQuery.Report.Snippet

namespace BoolQuery

/-- The explanation of a rejection for the text it is about. There is none if the rejection points
outside the text or into a character. -/
def Rejection.render? (coloured : Bool) (source : String) (why : Rejection) : Option String :=
  match why.span? with
  | none => some ("error: " ++ why.message)
  | some span =>
    (Report.Snippet.aim? source.toList span).map
      (Report.Snippet.render coloured why.message why.label source.toList)

/-- The explanation of a rejection for the text it is about, its message alone if the rejection
points outside the text or into a character. -/
def Rejection.render (coloured : Bool) (source : String) (why : Rejection) : String :=
  (why.render? coloured source).getD ("error: " ++ why.message)

end BoolQuery
