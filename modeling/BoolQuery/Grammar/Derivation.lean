/-
# The grammar as a relation

What the grammar derives, without any order among alternatives and without any preference for long
repetitions: `RightHandSide` lists the right-hand sides of the productions, `Derives` says which
kinds of tokens a sequence of kinds stands for, and `Tree.IsDerivation` which trees are derivations.
-/

import BoolQuery.Tree

namespace BoolQuery
namespace Grammar

/-- An item, and `n` more of them with `between` before each. -/
def chain (item : Kind) (between : List Kind) (n : Nat) : List Kind :=
  item :: (List.replicate n (between ++ [item])).flatten

/-- Whitespace that may be missing. -/
def MaybeSpace (ks : List Kind) : Prop := ks = [] ∨ ks = [.token .whitespace]

/-- The right-hand sides of the productions. -/
inductive RightHandSide : NodeKind → List Kind → Prop
  | wordSequence (n : Nat) :
      RightHandSide .wordSequence (chain (.token .word) [.token .whitespace] n)
  | phrase : RightHandSide .phraseOrWords [.token .phrase]
  | words : RightHandSide .phraseOrWords [.node .wordSequence]
  | excludeWord : RightHandSide .exclusion [.token .excludeOp, .token .word]
  | excludePhrase : RightHandSide .exclusion [.token .excludeOp, .token .phrase]
  | includeWord : RightHandSide .inclusion [.token .includeOp, .token .word]
  | includePhrase : RightHandSide .inclusion [.token .includeOp, .token .phrase]
  | prefixTerm : RightHandSide .prefixTerm [.token .word, .token .starOp]
  | exclusion : RightHandSide .term [.node .exclusion]
  | inclusion : RightHandSide .term [.node .inclusion]
  | prefixed : RightHandSide .term [.node .prefixTerm]
  | plain : RightHandSide .term [.node .phraseOrWords]
  | group {u v : List Kind} (hu : MaybeSpace u) (hv : MaybeSpace v) :
      RightHandSide .term
        (.token .parenOpen :: u ++ .node .query :: v ++ [.token .parenClose])
  | andTerm (n : Nat) :
      RightHandSide .andTerm
        (chain (.node .term) [.token .whitespace, .token .kwAnd, .token .whitespace] n)
  | orTerm (n : Nat) :
      RightHandSide .orTerm
        (chain (.node .andTerm) [.token .whitespace, .token .kwOr, .token .whitespace] n)
  | query {u v : List Kind} (hu : MaybeSpace u) (hv : MaybeSpace v) :
      RightHandSide .query (u ++ .node .orTerm :: v)

/-- The token kinds `w` can be read as the kinds `ks`, nodes standing for what their right-hand
sides derive. -/
inductive Derives : List Kind → List TokenKind → Prop
  | nil : Derives [] []
  | token {k : TokenKind} {ks : List Kind} {w : List TokenKind} (h : Derives ks w) :
      Derives (.token k :: ks) (k :: w)
  | node {k : NodeKind} {rhs ks : List Kind} {u w : List TokenKind} (hk : RightHandSide k rhs)
      (hu : Derives rhs u) (h : Derives ks w) : Derives (.node k :: ks) (u ++ w)

/-- Sequences of kinds derive side by side. -/
theorem Derives.append {ks ls : List Kind} {u w : List TokenKind} (hu : Derives ks u)
    (hw : Derives ls w) : Derives (ks ++ ls) (u ++ w) := by
  induction hu with
  | nil => exact hw
  | token _ ih => exact .token ih
  | node hk hr _ _ ih =>
    rw [List.append_assoc]
    exact .node hk hr ih

/-- One node for its right-hand side. -/
theorem Derives.single {k : NodeKind} {rhs : List Kind} {w : List TokenKind}
    (hk : RightHandSide k rhs) (h : Derives rhs w) : Derives [.node k] w := by
  have hnode := Derives.node hk h .nil
  rwa [List.append_nil] at hnode

/-- Token kinds that the start symbol derives. -/
def IsQuery (w : List TokenKind) : Prop := Derives [.node .query] w

end Grammar

/-- Every node of the tree has the parts of one right-hand side of its production, down to tokens of
token kinds. -/
inductive Tree.IsDerivation : Tree → Prop
  | leaf {t : Token} {k : TokenKind} (h : t.kind = .token k) : IsDerivation (.leaf t)
  | node {k : NodeKind} {ts : Forest} (hk : Grammar.RightHandSide k (ts.map Tree.kind))
      (h : ∀ t ∈ ts, IsDerivation t) : IsDerivation (.node k ts)

end BoolQuery
