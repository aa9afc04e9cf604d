/-
# What is left without texts and places

Two lines may be made of tokens of the same kinds, with other texts at other bytes. What is seen of
one of them is compared with what is seen of the other when texts and spans are left out: a token is
then its kind, and a tree tells its nodes and the kinds of its tokens. Which token of one line
stands for which of the other is told by a likeness.
-/

import BoolQuery.Reader.Ahead
import BoolQuery.Recognizer.State
import Mathlib.Data.List.Forall2

namespace BoolQuery

/-- The token without its text and its place. -/
def Token.bare (t : Token) : Token := ⟨t.kind, "", ⟨0, 0⟩⟩

namespace Tree

mutual

/-- The tree with its tokens replaced. -/
def mapTokens (f : Token → Token) : Tree → Tree
  | leaf t => leaf (f t)
  | node k ts => node k (forestMapTokens f ts)

/-- The forest with its tokens replaced. -/
def forestMapTokens (f : Token → Token) : Forest → Forest
  | [] => []
  | t :: ts => mapTokens f t :: forestMapTokens f ts

end

/-- The tokens of trees side by side are replaced tree by tree. -/
theorem forestMapTokens_eq_map (f : Token → Token) (ts : Forest) :
    forestMapTokens f ts = ts.map (mapTokens f) := by
  induction ts with
  | nil => rfl
  | cons t ts ih => rw [forestMapTokens, ih, List.map_cons]

@[simp] theorem mapTokens_leaf (f : Token → Token) (t : Token) :
    (leaf t).mapTokens f = leaf (f t) := rfl

@[simp] theorem mapTokens_node (f : Token → Token) (k : NodeKind) (ts : Forest) :
    (node k ts).mapTokens f = node k (ts.map (mapTokens f)) := by
  rw [mapTokens, forestMapTokens_eq_map]

/-- The tree without the texts and the places of its tokens. -/
def bare (t : Tree) : Tree := t.mapTokens Token.bare

end Tree

/-- The event without texts and places: the kind of the production, the nodes and the kinds of the
tokens of a match, and how many tokens of which kinds are given back. -/
def Recognizer.Event.bare : Event → Event
  | enter kind => .enter kind
  | matched node => .matched node.bare
  | failed kind => .failed kind
  | backtrack ts => .backtrack (ts.map Token.bare)

/-- A way in which tokens of one line stand for tokens of another: those that stand for each other
are of the same kind, and they start in the same order. -/
structure Token.Likeness (like : Token → Token → Prop) : Prop where
  kind_eq : ∀ {a b}, like a b → a.kind = b.kind
  start_lt_iff : ∀ {a b c d}, like a b → like c d →
    (a.span.start < c.span.start ↔ b.span.start < d.span.start)

variable {like : Token → Token → Prop}

/-- Tokens that stand for each other are the same without texts and places. -/
theorem Token.Likeness.bare_eq (hl : Likeness like) {a b : Token} (h : like a b) :
    a.bare = b.bare := by
  rw [bare, bare, hl.kind_eq h]

/-- Lists of tokens that stand for each other are the same without texts and places. -/
theorem Token.Likeness.map_bare_eq (hl : Likeness like) {ts us : List Token}
    (h : List.Forall₂ like ts us) : ts.map bare = us.map bare := by
  induction h with
  | nil => rfl
  | cons hab _ ih => rw [List.map_cons, List.map_cons, ih, hl.bare_eq hab]

/-- Forests that differ in texts and places only, and whose tokens stand for each other. -/
structure Forest.Alike (like : Token → Token → Prop) (f g : Forest) : Prop where
  bare : f.map Tree.bare = g.map Tree.bare
  tokens : List.Forall₂ like (Tree.forestTokens f) (Tree.forestTokens g)

namespace Forest.Alike

/-- Empty forests are alike. -/
theorem nil : Alike like [] [] := ⟨rfl, .nil⟩

/-- Alike forests side by side are alike. -/
theorem append {f g f' g' : Forest} (h : Alike like f g) (h' : Alike like f' g') :
    Alike like (f ++ f') (g ++ g') where
  bare := by rw [List.map_append, List.map_append, h.bare, h'.bare]
  tokens := by
    rw [Tree.forestTokens_append, Tree.forestTokens_append]
    exact List.rel_append h.tokens h'.tokens

/-- Tokens that stand for each other make alike leaves. -/
theorem leaf (hl : Token.Likeness like) {a b : Token} (h : like a b) :
    Alike like [.leaf a] [.leaf b] where
  bare := by simp [Tree.bare, hl.bare_eq h]
  tokens := .cons h .nil

/-- Alike forests make alike nodes. -/
theorem node {f g : Forest} (h : Alike like f g) (k : NodeKind) :
    Alike like [.node k f] [.node k g] where
  bare := by
    have hbare := h.bare
    simp only [List.map_cons, List.map_nil, Tree.bare, Tree.mapTokens_node]
    exact congrArg (fun ts => [Tree.node k ts]) hbare
  tokens := by
    rw [Tree.forestTokens_singleton, Tree.forestTokens_singleton]
    exact h.tokens

/-- Of two alike forests both are empty or neither is. -/
theorem eq_nil_iff {f g : Forest} (h : Alike like f g) : f = [] ↔ g = [] := by
  rw [← List.map_eq_nil_iff (f := Tree.bare), h.bare, List.map_eq_nil_iff]

end Forest.Alike

/-- Streams of tokens that stand for each other, with some such tokens in front. -/
theorem Reader.inFront_alike {ts us : List Token} (h : List.Forall₂ like ts us)
    {f g : Nat → Token} (hfg : ∀ n, like (f n) (g n)) (n : Nat) :
    like (inFront ts f n) (inFront us g n) := by
  induction h generalizing n with
  | nil => exact hfg n
  | cons hab _ ih =>
    cases n with
    | zero => exact hab
    | succ n => exact ih n

end BoolQuery
