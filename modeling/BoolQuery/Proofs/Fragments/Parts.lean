/-
# Every part of a query is a query

What a node of the tree of a line stands for can be cut out of the line and recognized on its own: a
node ends with no keyword, so its last token is the same without the text behind it, and any node is
all there is to a query. The tree of the cut-out text is the node, moved to the front, below
productions that have nothing else for a part (`recognize_part`).
-/

import BoolQuery.Proofs.Fragments.Standing
import Mathlib.Logic.Relation

namespace BoolQuery

open Grammar RecognizerM Relation

/-! ### Parts -/

namespace Tree

/-- The second tree is one of the parts of the first. -/
def HasPart (t u : Tree) : Prop := u ∈ t.children

/-- The second tree is all that the first has for parts. -/
def HasOnlyPart (t u : Tree) : Prop := t.children = [u]

end Tree

open BoolQuery.Tree

variable {start : Nat} {after : List Char} {t root : Tree}

/-- The part of a tree that stands in a line stands in the line. -/
theorem exists_standing_part (h : Standing start after [root]) (ht : ReflTransGen HasPart root t) :
    ∃ start' after', Standing start' after' [t] := by
  induction ht with
  | refl => exact ⟨start, after, h⟩
  | @tail t u _ hu ih =>
    obtain ⟨start', after', ht⟩ := ih
    cases t with
    | leaf t => cases hu
    | node k ts =>
      obtain ⟨f, g, rfl⟩ := List.append_of_mem (show u ∈ ts from hu)
      exact ⟨_, _, (standing_cons.1 (standing_append.1 ht.parts).2).1⟩

/-- A node that stands in a line stands also at its end. -/
theorem Standing.cut {k : NodeKind} (h : Standing start after [t]) (hk : t.kind = .node k) :
    Standing start [] [t] := by
  obtain ⟨us, u, a, hus, hu, ha⟩ := h.derivation.exists_last hk
  refine h.change fun last hlast hbefore => ?_
  rw [forestTokens_singleton, hus, List.getLast?_concat] at hlast
  obtain rfl := Option.some.inj hlast
  -- No production ends with a keyword.
  have hkeyword : TokenKind.kwAnd ∉ lasts k ∧ TokenKind.kwOr ∉ lasts k := by cases k <;> decide
  refine hbefore.cut ?_ ?_
  · rw [hu]
    exact fun h => hkeyword.1 (Kind.token.inj h ▸ ha)
  · rw [hu]
    exact fun h => hkeyword.2 (Kind.token.inj h ▸ ha)

/-! ### Nodes alone -/

theorem rank_le (k : NodeKind) : rank k ≤ 6 := by cases k <;> decide

/-- Every production but `Query` is all there is to some other one, further up. -/
theorem exists_alone {k : NodeKind} (hk : k ≠ .query) :
    ∃ l, rank k < rank l ∧ RightHandSide l [.node k] := by
  cases k with
  | query => exact absurd rfl hk
  | wordSequence => exact ⟨_, by decide, .words⟩
  | phraseOrWords => exact ⟨_, by decide, .plain⟩
  | exclusion => exact ⟨_, by decide, .exclusion⟩
  | inclusion => exact ⟨_, by decide, .inclusion⟩
  | prefixTerm => exact ⟨_, by decide, .prefixed⟩
  | term => exact ⟨_, by decide, .andTerm 0⟩
  | andTerm => exact ⟨_, by decide, .orTerm 0⟩
  | orTerm => exact ⟨_, by decide, .query (.inl rfl) (.inl rfl)⟩

/-- Wherever a node stands there stands a `Query` that leads to it and to nothing else. -/
theorem Standing.exists_query {t : Tree} {k : NodeKind} (h : Standing start after [t])
    (hk : t.kind = .node k) :
    ∃ root, root.kind = .node .query ∧ root.text = t.text ∧ Standing start after [root] ∧
      ReflTransGen HasOnlyPart root t ∧ (k = .query → t = root) := by
  by_cases hquery : k = .query
  · exact ⟨t, by rw [hk, hquery], rfl, h, .refl, fun _ => rfl⟩
  · obtain ⟨l, hrank, hrhs⟩ := exists_alone hquery
    have hkinds : [t].map Tree.kind = [.node k] := by rw [List.map_singleton, hk]
    have hnode : Standing start after [.node l [t]] :=
      h.node (by rwa [hkinds]) fun _ => groupSettled_singleton hkinds hquery
    obtain ⟨root, hroot, htext, hstands, hpath, -⟩ := hnode.exists_query rfl
    exact ⟨root, hroot, htext.trans (text_node_singleton l t), hstands, hpath.tail rfl,
      fun h => absurd h hquery⟩
termination_by 6 - rank k
decreasing_by
  have hle := rank_le l
  omega

/-- **Every part of a query is a query.** If a line is recognized, the text of every node of its
tree is recognized on its own. From the root of the tree it is recognized with, one leads to the
node by going to the only part of a tree again and again, up to its place: the node found there,
moved to where the text stood in the line, is the node of the line. For a `Query` it is the root
itself. -/
theorem recognize_part {line : String} {root : Tree} (h : recognize none line = .ok root)
    {k : NodeKind} {ts : Forest} (ht : ReflTransGen HasPart root (.node k ts)) :
    ∃ range alone t, (Tree.node k ts).span? = some range ∧
      recognize none (Tree.node k ts).text = .ok alone ∧
      ReflTransGen HasOnlyPart alone t ∧ t.moved range.start = .node k ts ∧
      (k = .query → t = alone) := by
  obtain ⟨-, -, hroot⟩ := recognize_eq_ok_iff_standing.1 h
  obtain ⟨start, after, hstands⟩ := exists_standing_part hroot ht
  have hplaced := hstands.placed
  rw [forestTokens_singleton] at hplaced
  have hrange := Tree.span?_of_placed hplaced hstands.derivation.tokens_ne_nil
  obtain ⟨t, hmoved, hkind, htext, halone⟩ := (hstands.cut rfl).exists_moved
  obtain ⟨alone, hquery, hsame, hstanding, hpath, hself⟩ := halone.exists_query hkind
  refine ⟨_, alone, t, hrange, ?_, hpath, hmoved, hself⟩
  rw [← htext, ← hsame]
  exact recognize_eq_ok_iff_standing.2 ⟨hquery, rfl, hstanding⟩

/-- The query in the parentheses of `x OR (y AND AND)`, whose last word is no keyword. -/
def innerQuery : Tree :=
  .node .query [.node .orTerm [.node .andTerm [.ofWord ⟨TokenKind.word, "y", ⟨6, 1⟩⟩,
    .leaf ⟨TokenKind.whitespace, " ", ⟨7, 1⟩⟩, .leaf ⟨TokenKind.kwAnd, "AND", ⟨8, 3⟩⟩,
    .leaf ⟨TokenKind.whitespace, " ", ⟨11, 1⟩⟩, .ofWord ⟨TokenKind.word, "AND", ⟨12, 3⟩⟩]]]

/-- The tree of `x OR (y AND AND)`. -/
def outerQuery : Tree :=
  .node .query [.node .orTerm [.node .andTerm [.ofWord ⟨TokenKind.word, "x", ⟨0, 1⟩⟩],
    .leaf ⟨TokenKind.whitespace, " ", ⟨1, 1⟩⟩, .leaf ⟨TokenKind.kwOr, "OR", ⟨2, 2⟩⟩,
    .leaf ⟨TokenKind.whitespace, " ", ⟨4, 1⟩⟩,
    .node .andTerm [.node .term [.leaf ⟨TokenKind.parenOpen, "(", ⟨5, 1⟩⟩, innerQuery,
      .leaf ⟨TokenKind.parenClose, ")", ⟨15, 1⟩⟩]]]]

/-- The query in parentheses is recognized on its own, six bytes further to the front. -/
theorem recognize_part_innerQuery :
    recognize none "x OR (y AND AND)" = .ok outerQuery ∧
      ∃ alone, recognize none "y AND AND" = .ok alone ∧ alone.moved 6 = innerQuery := by
  have h : recognize none "x OR (y AND AND)" = .ok outerQuery := by decide +kernel
  have hpart : ReflTransGen HasPart outerQuery innerQuery :=
    .head (List.mem_of_getLast? rfl) (.head (List.mem_of_getLast? rfl)
      (.head (List.mem_of_getLast? rfl) (.single (.tail _ (.head _)))))
  obtain ⟨range, alone, t, hrange, halone, -, hmoved, hself⟩ := recognize_part h hpart
  obtain rfl := hself rfl
  have hstart : range = ⟨6, 9⟩ := Option.some.inj (hrange.symm.trans (by decide))
  have htext : innerQuery.text = "y AND AND" := by decide
  rw [hstart] at hmoved
  exact ⟨h, t, htext ▸ halone, hmoved⟩

end BoolQuery
