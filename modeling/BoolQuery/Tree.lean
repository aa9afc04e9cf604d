/-
# Derivation trees

A tree is a token, or a node of the grammar over the trees that its production matched. Several
trees side by side form a forest: what a part of a production matched.
-/

import BoolQuery.Token

namespace BoolQuery

/-- A token of the line, or a node over its parts. -/
inductive Tree
  | leaf (token : Token)
  | node (kind : NodeKind) (children : List Tree)

/-- Trees side by side. -/
abbrev Forest := List Tree

namespace Tree

/-- The kind at the root. -/
def kind : Tree → Kind
  | leaf t => t.kind
  | node k _ => k

/-- The parts of a node; a token has none. -/
def children : Tree → Forest
  | leaf _ => []
  | node _ ts => ts

/-- The `Term` of a single word. -/
def ofWord (t : Token) : Tree := node .term [node .phraseOrWords [node .wordSequence [leaf t]]]

mutual

/-- Tells whether two trees are the same. -/
def decEq : (t u : Tree) → Decidable (t = u)
  | leaf a, leaf b => decidable_of_iff (a = b) (Iff.of_eq (leaf.injEq ..)).symm
  | leaf _, node .. => isFalse nofun
  | node .., leaf _ => isFalse nofun
  | node k f, node l g =>
    have := forestDecEq f g
    decidable_of_iff (k = l ∧ f = g) (Iff.of_eq (node.injEq ..)).symm

/-- Tells whether two forests are the same. -/
def forestDecEq : (f g : Forest) → Decidable (f = g)
  | [], [] => isTrue rfl
  | [], _ :: _ => isFalse nofun
  | _ :: _, [] => isFalse nofun
  | t :: f, u :: g =>
    have := decEq t u
    have := forestDecEq f g
    decidable_of_iff (t = u ∧ f = g) (Iff.of_eq (List.cons.injEq ..)).symm

end

instance : DecidableEq Tree := decEq

mutual

/-- The tokens of a tree, in the order of the line, in front of others. Takes time in the size of
the tree, however deep it is. -/
def tokensOnto : Tree → List Token → List Token
  | leaf t, rest => t :: rest
  | node _ ts, rest => forestTokensOnto ts rest

/-- The tokens of a forest, in the order of the line, in front of others. -/
def forestTokensOnto : Forest → List Token → List Token
  | [], rest => rest
  | t :: ts, rest => tokensOnto t (forestTokensOnto ts rest)

end

mutual

/-- The tokens of a tree come in front of all others. -/
theorem tokensOnto_append (t : Tree) (a b : List Token) :
    tokensOnto t (a ++ b) = tokensOnto t a ++ b := by
  cases t with
  | leaf t => rfl
  | node k ts => exact forestTokensOnto_append ts a b

/-- The tokens of a forest come in front of all others. -/
theorem forestTokensOnto_append (f : Forest) (a b : List Token) :
    forestTokensOnto f (a ++ b) = forestTokensOnto f a ++ b := by
  cases f with
  | nil => rfl
  | cons t ts =>
    simp only [forestTokensOnto]
    rw [forestTokensOnto_append ts, tokensOnto_append t]

end

/-- The tokens of a tree, in the order of the line. -/
def tokens (t : Tree) : List Token := t.tokensOnto []

/-- The tokens of a forest, in the order of the line. -/
def forestTokens (f : Forest) : List Token := forestTokensOnto f []

@[simp] theorem tokens_leaf (t : Token) : (leaf t).tokens = [t] := rfl

@[simp] theorem tokens_node (k : NodeKind) (ts : Forest) : (node k ts).tokens = forestTokens ts :=
  rfl

@[simp] theorem forestTokens_nil : forestTokens [] = [] := rfl

/-- The tokens of a forest are those of its first tree and then those of the others. -/
@[simp] theorem forestTokens_cons (t : Tree) (ts : Forest) :
    forestTokens (t :: ts) = t.tokens ++ forestTokens ts :=
  tokensOnto_append t [] (forestTokens ts)

/-- The tokens of a forest are those of its trees, side by side. -/
theorem forestTokens_eq_flatMap (f : Forest) : forestTokens f = f.flatMap tokens := by
  induction f with
  | nil => rfl
  | cons t f ih => rw [forestTokens_cons, ih, List.flatMap_cons]

/-- The tokens of forests side by side are side by side. -/
@[simp] theorem forestTokens_append (f g : Forest) :
    forestTokens (f ++ g) = forestTokens f ++ forestTokens g := by
  simp only [forestTokens_eq_flatMap, List.flatMap_append]

/-- The tokens of a single tree are those of the tree. -/
theorem forestTokens_singleton (t : Tree) : forestTokens [t] = t.tokens := by
  rw [forestTokens_cons, forestTokens_nil, List.append_nil]

/-- The text of a tree. -/
def text (t : Tree) : String := Token.joined t.tokens

/-- The range that covers the tokens of a tree; a tree without tokens has none. -/
def span? (t : Tree) : Option Span :=
  match t.tokens.head?, t.tokens.getLast? with
  | some first, some last => some (first.span.cover last.span)
  | _, _ => none

mutual

/-- The bytes that the text of a tree takes. -/
def extent : Tree → Nat
  | leaf t => Text.bytes t.text.toList
  | node _ ts => forestExtent ts

/-- The bytes that the texts of a forest take. -/
def forestExtent : Forest → Nat
  | [] => 0
  | t :: ts => extent t + forestExtent ts

end

mutual

/-- A tree takes as many bytes as its text. -/
theorem extent_eq (t : Tree) : t.extent = Text.bytes t.text.toList := by
  cases t with
  | leaf t => simp [extent, text]
  | node k ts =>
    have h := forestExtent_eq ts
    simpa only [extent, text, tokens_node] using h

/-- A forest takes as many bytes as its text. -/
theorem forestExtent_eq (f : Forest) :
    forestExtent f = Text.bytes (Token.joined (forestTokens f)).toList := by
  cases f with
  | nil => rfl
  | cons t ts =>
    have ht := extent_eq t
    have hs := forestExtent_eq ts
    simp only [text, Token.toList_joined] at ht hs
    simp only [forestExtent, ht, hs, forestTokens_cons, Token.toList_joined, List.flatMap_append,
      Text.bytes_append]

end

/-- A tree met on a walk through a larger one. -/
structure Visit where
  /-- How many nodes are above it. -/
  depth : Nat
  /-- The bytes of text before it. -/
  start : Nat
  tree : Tree

mutual

/-- Walks through a tree whose text starts at byte `start`, and meets every tree before its
parts; in front of what is met later. -/
def walkOnto (depth start : Nat) : Tree → List Visit → List Visit
  | leaf t, rest => ⟨depth, start, leaf t⟩ :: rest
  | node k ts, rest => ⟨depth, start, node k ts⟩ :: forestWalkOnto (depth + 1) start ts rest

/-- Walks through the trees of a forest whose text starts at byte `start`; in front of what is met
later. -/
def forestWalkOnto (depth start : Nat) : Forest → List Visit → List Visit
  | [], rest => rest
  | t :: ts, rest => walkOnto depth start t (forestWalkOnto depth (start + t.extent) ts rest)

end

mutual

/-- What is met in a tree comes in front of all that is met later. -/
theorem walkOnto_append (depth start : Nat) (t : Tree) (a b : List Visit) :
    walkOnto depth start t (a ++ b) = walkOnto depth start t a ++ b := by
  cases t with
  | leaf t => rfl
  | node k ts => exact congrArg _ (forestWalkOnto_append (depth + 1) start ts a b)

/-- What is met in a forest comes in front of all that is met later. -/
theorem forestWalkOnto_append (depth start : Nat) (f : Forest) (a b : List Visit) :
    forestWalkOnto depth start f (a ++ b) = forestWalkOnto depth start f a ++ b := by
  cases f with
  | nil => rfl
  | cons t ts =>
    simp only [forestWalkOnto]
    rw [forestWalkOnto_append depth _ ts, walkOnto_append depth start t]

end

/-- Walks through a tree whose text starts at byte `start`, and meets every tree before its
parts. -/
def walk (depth start : Nat) (t : Tree) : List Visit := walkOnto depth start t []

/-- Walks through the trees of a forest whose text starts at byte `start`. -/
def forestWalk (depth start : Nat) (f : Forest) : List Visit := forestWalkOnto depth start f []

@[simp] theorem walk_leaf (depth start : Nat) (t : Token) :
    walk depth start (leaf t) = [⟨depth, start, leaf t⟩] := rfl

@[simp] theorem walk_node (depth start : Nat) (k : NodeKind) (ts : Forest) :
    walk depth start (node k ts) =
      ⟨depth, start, node k ts⟩ :: forestWalk (depth + 1) start ts := rfl

@[simp] theorem forestWalk_nil (depth start : Nat) : forestWalk depth start [] = [] := rfl

/-- A walk through a forest goes through its first tree and then through the others. -/
@[simp] theorem forestWalk_cons (depth start : Nat) (t : Tree) (ts : Forest) :
    forestWalk depth start (t :: ts) =
      walk depth start t ++ forestWalk depth (start + t.extent) ts :=
  walkOnto_append depth start t [] (forestWalk depth (start + t.extent) ts)

/-- The tree is a node of the given kind. A token is no node. -/
def isNodeOf (k : Kind) : Tree → Bool
  | leaf _ => false
  | node k' _ => k == k'

/-- The parts of a tree that are nodes of the given kind. -/
def childNodes (k : Kind) (t : Tree) : Forest := t.children.filter (isNodeOf k)

/-- The nodes that a path of kinds leads to from the given trees, one generation for each kind. -/
def descend (f : Forest) (path : List Kind) : Forest :=
  path.foldl (fun f k => f.flatMap (childNodes k)) f

/-- The first node of a kind, looked for in the tree itself and then below it in order. -/
def firstNode? (k : Kind) (t : Tree) : Option Tree :=
  ((t.walk 0 0).map Visit.tree).find? (isNodeOf k)

end Tree

end BoolQuery
