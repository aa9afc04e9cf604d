/-
# Splitting a text into lines

A line feed ends a line, and one carriage return right before it belongs to the terminator. The
two rules differ at the end of the text only:

| | text given on the command line | file or standard input |
| --- | --- | --- |
| after the last line feed | one more line, even if empty | a line only if anything is left |
| carriage return at the very end | dropped | kept |
-/

namespace BoolQuery
namespace Text

/-- The pieces of a text between the separators, always at least one. -/
def pieces (sep : Char) : List Char → List (List Char)
  | [] => [[]]
  | c :: cs =>
    if c = sep then [] :: pieces sep cs
    else match pieces sep cs with
      | [] => [[c]]
      | p :: ps => (c :: p) :: ps

/-- Drops one carriage return from the end. -/
def dropReturn (line : List Char) : List Char :=
  if line.getLast? = some '\r' then line.dropLast else line

/-- Where the lines of a text come from decides how its end is read. -/
inductive LineRule
  /-- Text given on the command line. -/
  | inline
  /-- A file or the standard input. -/
  | stream
  deriving DecidableEq, Repr

/-- The lines of a text as lists of characters, without their terminators. -/
def LineRule.split (rule : LineRule) (cs : List Char) : List (List Char) :=
  let ps := pieces '\n' cs
  match rule with
  | .inline => ps.map dropReturn
  | .stream => ps.dropLast.map dropReturn ++ ps.getLast?.toList.filter (· ≠ [])

/-- The lines of a text, without their terminators. -/
def LineRule.lines (rule : LineRule) (text : String) : List String :=
  (rule.split text.toList).map String.ofList

end Text
end BoolQuery
