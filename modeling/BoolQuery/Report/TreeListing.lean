/-
# Listings of derivation trees

One line for each node and token, every node before its parts, indented by two spaces for every
level. Ranges are counted along the texts of the tokens, the first of which begins at byte 0.
-/

import BoolQuery.Text.Quoted
import BoolQuery.Tree

namespace BoolQuery
namespace Report

/-- What a tree listing shows besides nodes and tokens. -/
structure TreeStyle where
  /-- Whitespace tokens. -/
  trivia : Bool
  /-- Ranges. -/
  spans : Bool

namespace TreeStyle

/-- A listing shows every node, and every token but whitespace that was not asked for. -/
def shows (style : TreeStyle) : Tree → Bool
  | .leaf t => style.trivia || !t.kind.isTrivia
  | .node _ _ => true

/-- The range of a tree, if ranges are shown. -/
def rangeText (style : TreeStyle) (v : Tree.Visit) : String :=
  if style.spans then
    " [" ++ toString v.start ++ ".." ++ toString (v.start + v.tree.extent) ++ "]"
  else ""

/-- The quoted text of a token; a node shows none. -/
def tokenText : Tree → String
  | .leaf t => " " ++ Text.Quoted.quote t.text
  | .node _ _ => ""

/-- The line for a tree: indentation, kind, range and text. -/
def line (style : TreeStyle) (v : Tree.Visit) : String :=
  String.ofList (List.replicate (2 * v.depth) ' ') ++ v.tree.kind.name ++ style.rangeText v ++
    tokenText v.tree

/-- The lines for a tree. -/
def lines (style : TreeStyle) (t : Tree) : List String :=
  ((t.walk 0 0).filter fun v => style.shows v.tree).map style.line

/-- The listing of a tree, each line ended by a line feed. -/
def dump (style : TreeStyle) (t : Tree) : String :=
  String.join ((style.lines t).map (· ++ "\n"))

end TreeStyle

end Report
end BoolQuery
