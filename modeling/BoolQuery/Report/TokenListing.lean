/-
# Listings of tokens

As text, one line for each token: its kind and its quoted text. As JSON, one array without spaces,
with the kind, the text and the two offsets of each token.
-/

import BoolQuery.Text.Json
import BoolQuery.Text.Quoted
import BoolQuery.Token

namespace BoolQuery
namespace Report
namespace TokenListing

/-- The line for one token. -/
def line (t : Token) : String := t.kind.name ++ " " ++ Text.Quoted.quote t.text

/-- The tokens as text, each line ended by a line feed. -/
def text (ts : List Token) : String := String.join (ts.map fun t => line t ++ "\n")

/-- One token as an object of JSON. -/
def object (t : Token) : String :=
  "\x7b\"kind\":" ++ Text.Json.quote t.kind.name ++
    ",\"text\":" ++ Text.Json.quote t.text ++
    ",\"start\":" ++ toString t.span.start ++
    ",\"end\":" ++ toString t.span.stop ++ "\x7d"

/-- The tokens as an array of JSON. -/
def json (ts : List Token) : String :=
  "[" ++ String.intercalate "," (ts.map object) ++ "]"

end TokenListing
end Report
end BoolQuery
