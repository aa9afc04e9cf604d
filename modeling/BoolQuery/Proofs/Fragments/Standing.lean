/-
# Trees that stand in a line

A line is recognized with a tree that stands at its first byte with nothing behind it
(`recognize_eq_ok_iff_standing`). Its parts stand in the line as well, each at its own byte and with
the rest of the line behind it, and trees side by side stand where each of them stands in front of
the others. Where a tree stands can be changed:

| change | stays standing |
| --- | --- |
| to another byte | every tree, with its spans moved |
| in front of another text | if its last token is the same in front of that text |
| as the parts of a node | if they are a right-hand side, and a group takes its whitespace as settled |

So to recognize a part of a line, or a line that is put together, is to find a tree that stands
there.
-/

import BoolQuery.Proofs.Kinds.Likeness
import BoolQuery.Proofs.Lossless

namespace BoolQuery

open Grammar

namespace Token

/-- The token `d` bytes further on. -/
def moved (d : Nat) (t : Token) : Token := { t with span := ⟨d + t.span.start, t.span.length⟩ }

/-- The token `d` bytes further to the front. -/
def movedBack (d : Nat) (t : Token) : Token := { t with span := ⟨t.span.start - d, t.span.length⟩ }

/-- Tokens are replaced by tokens of the same kind with the same text. -/
structure Keeps (f : Token → Token) : Prop where
  kind : ∀ t, (f t).kind = t.kind
  text : ∀ t, (f t).text = t.text

/-- Moving a token keeps its kind and its text. -/
theorem keeps_moved (d : Nat) : Keeps (moved d) := ⟨fun _ => rfl, fun _ => rfl⟩

/-- Moving a token back keeps its kind and its text. -/
theorem keeps_movedBack (d : Nat) : Keeps (movedBack d) := ⟨fun _ => rfl, fun _ => rfl⟩

/-- Tokens replaced with their texts kept are written as the same text. -/
theorem Keeps.joined {f : Token → Token} (hf : Keeps f) (ts : List Token) :
    Token.joined (ts.map f) = Token.joined ts := by
  rw [← String.toList_inj, toList_joined, toList_joined, List.flatMap_map]
  simp only [hf.text]

end Token

open Token (Keeps keeps_moved keeps_movedBack)

/-! ### Tokens -/

section

variable {f : Token → Token} {start d : Nat} {after : List Char} {ts : List Token}

/-- Tokens replaced with their kinds and texts kept are seamed as before. -/
theorem Seamed.map (hf : Keeps f) (h : Seamed after ts) : Seamed after (ts.map f) := by
  induction ts with
  | nil => trivial
  | cons t ts ih =>
    obtain ⟨⟨hne, k, hk, hlexeme⟩, hts⟩ := h
    refine ⟨⟨by rwa [hf.text], k, by rw [hf.kind, hk], ?_⟩, ih hts⟩
    rwa [hf.joined, hf.text]

/-- Placed tokens are placed further on when they are moved. -/
theorem Placed.moved (d : Nat) (h : Placed start ts) :
    Placed (d + start) (ts.map (Token.moved d)) := by
  induction ts generalizing start with
  | nil => trivial
  | cons t ts ih =>
    obtain ⟨hspan, hts⟩ := h
    refine ⟨?_, ?_⟩
    · simp only [Token.moved, hspan]
    · rw [Nat.add_assoc]
      exact ih hts

/-- Placed tokens are placed further to the front when they are moved back. -/
theorem Placed.movedBack (h : Placed (d + start) ts) :
    Placed start (ts.map (Token.movedBack d)) := by
  induction ts generalizing start with
  | nil => trivial
  | cons t ts ih =>
    obtain ⟨hspan, hts⟩ := h
    refine ⟨?_, ?_⟩
    · simp only [Token.movedBack, hspan, Nat.add_sub_cancel_left]
    · rw [Nat.add_assoc] at hts
      exact ih hts

/-- No placed token begins in front of the others. -/
theorem Placed.le_start (h : Placed start ts) : ∀ t ∈ ts, start ≤ t.span.start := by
  induction ts generalizing start with
  | nil => exact nofun
  | cons t ts ih =>
    obtain ⟨hspan, hts⟩ := h
    rw [List.forall_mem_cons]
    refine ⟨by rw [hspan], fun u hu => ?_⟩
    have hle := ih hts u hu
    omega

end

/-! ### Trees with their tokens replaced -/

namespace Tree

/-- The tree `d` bytes further on. -/
def moved (d : Nat) (t : Tree) : Tree := t.mapTokens (Token.moved d)

/-- A node over one tree has its text. -/
theorem text_node_singleton (k : NodeKind) (t : Tree) : (node k [t]).text = t.text := by
  rw [text, text, tokens_node, forestTokens_singleton]

/-- A node over one tree is as wide as the tree. -/
theorem extent_node_singleton (k : NodeKind) (t : Tree) : (node k [t]).extent = t.extent := by
  rw [extent_eq, extent_eq, text_node_singleton]

variable {f g : Token → Token}

mutual

/-- The tokens of a tree with its tokens replaced. -/
theorem tokens_mapTokens (f : Token → Token) (t : Tree) :
    (t.mapTokens f).tokens = t.tokens.map f := by
  cases t with
  | leaf t => rfl
  | node k ts =>
    rw [mapTokens_node, tokens_node, tokens_node, forestTokens_mapTokens f ts]

/-- The tokens of trees side by side with their tokens replaced. -/
theorem forestTokens_mapTokens (f : Token → Token) (ts : Forest) :
    forestTokens (ts.map (mapTokens f)) = (forestTokens ts).map f := by
  cases ts with
  | nil => rfl
  | cons t ts =>
    rw [List.map_cons, forestTokens_cons, forestTokens_cons, List.map_append,
      tokens_mapTokens f t, forestTokens_mapTokens f ts]

end

mutual

/-- Tokens that are replaced and put back. -/
theorem mapTokens_mapTokens_eq_self (t : Tree) (h : ∀ u ∈ t.tokens, g (f u) = u) :
    (t.mapTokens f).mapTokens g = t := by
  cases t with
  | leaf t => rw [mapTokens_leaf, mapTokens_leaf, h t (.head _)]
  | node k ts =>
    rw [mapTokens_node, mapTokens_node, forestMapTokens_eq_self ts h]

/-- Tokens of trees side by side that are replaced and put back. -/
theorem forestMapTokens_eq_self (ts : Forest) (h : ∀ u ∈ forestTokens ts, g (f u) = u) :
    (ts.map (mapTokens f)).map (mapTokens g) = ts := by
  cases ts with
  | nil => rfl
  | cons t ts =>
    rw [forestTokens_cons, List.forall_mem_append] at h
    rw [List.map_cons, List.map_cons, mapTokens_mapTokens_eq_self t h.1,
      forestMapTokens_eq_self ts h.2]

end

/-- Replacing tokens with their kinds kept keeps the kind of the tree. -/
theorem kind_mapTokens (hf : Keeps f) (t : Tree) : (t.mapTokens f).kind = t.kind := by
  cases t with
  | leaf t => exact hf.kind t
  | node k ts => rw [mapTokens_node, kind, kind]

/-- Replacing tokens with their kinds kept keeps the kinds of trees side by side. -/
theorem map_kind_mapTokens (hf : Keeps f) (ts : Forest) :
    (ts.map (mapTokens f)).map kind = ts.map kind := by
  rw [List.map_map]
  exact List.map_congr_left fun t _ => kind_mapTokens hf t

@[simp] theorem kind_moved (d : Nat) (t : Tree) : (t.moved d).kind = t.kind :=
  kind_mapTokens (keeps_moved d) t

/-- Moving trees side by side keeps their kinds. -/
theorem map_kind_moved (d : Nat) (ts : Forest) : (ts.map (moved d)).map kind = ts.map kind :=
  map_kind_mapTokens (keeps_moved d) ts

/-- The tokens of moved trees are the moved tokens of the trees. -/
theorem forestTokens_moved (d : Nat) (ts : Forest) :
    forestTokens (ts.map (moved d)) = (forestTokens ts).map (Token.moved d) :=
  forestTokens_mapTokens (Token.moved d) ts

/-- A derivation is one with its tokens replaced, their kinds kept. -/
theorem IsDerivation.mapTokens (hf : Keeps f) {t : Tree} (h : t.IsDerivation) :
    (t.mapTokens f).IsDerivation := by
  induction h with
  | @leaf t k hk => exact .leaf ((hf.kind t).trans hk)
  | @node k ts hrhs _ ih =>
    rw [mapTokens_node]
    refine .node (by rwa [map_kind_mapTokens hf]) fun t ht => ?_
    obtain ⟨u, hu, rfl⟩ := List.mem_map.1 ht
    exact ih u hu

/-- A settled tree is settled with its tokens replaced, their kinds kept. -/
theorem Settled.mapTokens (hf : Keeps f) {t : Tree} (h : t.Settled) : (t.mapTokens f).Settled := by
  induction h with
  | leaf t => exact .leaf (f t)
  | @node k ts hgroup _ ih =>
    rw [mapTokens_node]
    refine .node (fun hk => ⟨fun q hq hkind => ?_, ?_⟩) fun t ht => ?_
    · obtain ⟨p, hp, rfl⟩ := List.mem_map.1 hq
      rw [kind_mapTokens hf] at hkind
      rw [tokens_mapTokens, List.head?_map]
      intro u hu
      obtain ⟨v, hv, rfl⟩ := Option.map_eq_some_iff.1 hu
      rw [hf.kind]
      exact (hgroup hk).1 p hp hkind v hv
    · rw [map_kind_mapTokens hf]
      exact (hgroup hk).2
    · obtain ⟨u, hu, rfl⟩ := List.mem_map.1 ht
      exact ih u hu

end Tree

open BoolQuery.Tree

/-! ### Standing -/

/-- Trees side by side that stand at byte `start` with `after` behind them: their tokens are those
that are read there, and they are settled derivations. -/
structure Standing (start : Nat) (after : List Char) (f : Forest) : Prop where
  placed : Placed start (forestTokens f)
  seamed : Seamed after (forestTokens f)
  derivations : ∀ t ∈ f, t.IsDerivation
  settled : ∀ t ∈ f, t.Settled

section

variable {start : Nat} {after : List Char} {f g ts : Forest} {t : Tree}

/-- Trees side by side stand where the first ones stand in front of the others. -/
theorem standing_append : Standing start after (f ++ g) ↔
    Standing start ((Token.joined (forestTokens g)).toList ++ after) f ∧
      Standing (start + Text.bytes (Token.joined (forestTokens f)).toList) after g := by
  constructor
  · rintro ⟨hplaced, hseamed, hd, hs⟩
    rw [forestTokens_append, placed_append] at hplaced
    rw [forestTokens_append, seamed_append] at hseamed
    rw [List.forall_mem_append] at hd hs
    exact ⟨⟨hplaced.1, hseamed.1, hd.1, hs.1⟩, hplaced.2, hseamed.2, hd.2, hs.2⟩
  · rintro ⟨hf, hg⟩
    refine ⟨?_, ?_, List.forall_mem_append.2 ⟨hf.derivations, hg.derivations⟩,
      List.forall_mem_append.2 ⟨hf.settled, hg.settled⟩⟩
    · rw [forestTokens_append, placed_append]
      exact ⟨hf.placed, hg.placed⟩
    · rw [forestTokens_append, seamed_append]
      exact ⟨hf.seamed, hg.seamed⟩

/-- Trees side by side stand where the first one stands in front of the others. -/
theorem standing_cons : Standing start after (t :: ts) ↔
    Standing start ((Token.joined (forestTokens ts)).toList ++ after) [t] ∧
      Standing (start + t.extent) after ts := by
  rw [← List.singleton_append, standing_append, forestTokens_singleton, extent_eq, text]

/-- A leaf stands at the byte where its span begins, in front of every text that leaves its token as
it is. -/
theorem standing_leaf {t : Token} {k : TokenKind} (hk : t.kind = .token k)
    (hspan : t.span = ⟨start, Text.bytes t.text.toList⟩) (h : t.StandsBefore after) :
    Standing start after [.leaf t] where
  placed := ⟨hspan, trivial⟩
  seamed := ⟨h, trivial⟩
  derivations := List.forall_mem_singleton.2 (.leaf hk)
  settled := List.forall_mem_singleton.2 (.leaf t)

namespace Standing

/-- A tree that stands in a line is a derivation. -/
theorem derivation (h : Standing start after [t]) : t.IsDerivation := h.derivations t (.head _)

/-- The parts of a node stand where it stands. -/
theorem parts {k : NodeKind} (h : Standing start after [.node k ts]) : Standing start after ts where
  placed := by simpa using h.placed
  seamed := by simpa using h.seamed
  derivations := h.derivation.parts
  settled := (h.settled _ (.head _)).parts

/-- A node stands where its parts stand. -/
theorem node {k : NodeKind} (h : Standing start after ts) (hrhs : RightHandSide k (ts.map kind))
    (hgroup : k = .term → GroupSettled ts) : Standing start after [.node k ts] where
  placed := by simpa using h.placed
  seamed := by simpa using h.seamed
  derivations := List.forall_mem_singleton.2 (.node hrhs h.derivations)
  settled := List.forall_mem_singleton.2 (.node hgroup h.settled)

/-- Trees stand in front of every text in front of which their last token does. -/
theorem change {after' : List Char} (h : Standing start after f)
    (hlast : ∀ t ∈ (forestTokens f).getLast?, t.StandsBefore after → t.StandsBefore after') :
    Standing start after' f :=
  ⟨h.placed, h.seamed.change hlast, h.derivations, h.settled⟩

/-- Trees stand where their replaced tokens are placed, if the kinds and texts are kept. -/
theorem mapTokens {start' : Nat} {r : Token → Token} (hr : Keeps r) (h : Standing start after f)
    (hplaced : Placed start' ((forestTokens f).map r)) :
    Standing start' after (f.map (Tree.mapTokens r)) where
  placed := by rwa [forestTokens_mapTokens]
  seamed := by
    rw [forestTokens_mapTokens]
    exact h.seamed.map hr
  derivations t ht := by
    obtain ⟨u, hu, rfl⟩ := List.mem_map.1 ht
    exact (h.derivations u hu).mapTokens hr
  settled t ht := by
    obtain ⟨u, hu, rfl⟩ := List.mem_map.1 ht
    exact (h.settled u hu).mapTokens hr

/-- Trees stand further on when they are moved. -/
theorem moved (d : Nat) (h : Standing start after f) :
    Standing (d + start) after (f.map (Tree.moved d)) :=
  h.mapTokens (keeps_moved d) (h.placed.moved d)

/-- A tree that stands at byte `start` is one from the front, moved there. -/
theorem exists_moved (h : Standing start after [t]) :
    ∃ u, u.moved start = t ∧ u.kind = t.kind ∧ u.text = t.text ∧ Standing 0 after [u] := by
  have hplaced : Placed (start + 0) (forestTokens [t]) := h.placed
  refine ⟨t.mapTokens (Token.movedBack start), ?_, kind_mapTokens (keeps_movedBack start) t, ?_,
    h.mapTokens (keeps_movedBack start) hplaced.movedBack⟩
  · refine mapTokens_mapTokens_eq_self t fun u hu => ?_
    have hle := h.placed.le_start u (by rwa [forestTokens_singleton])
    simp only [Token.moved, Token.movedBack, Nat.add_sub_cancel' hle]
  · rw [text, text, tokens_mapTokens, (keeps_movedBack start).joined]

end Standing

end

/-- **A line is recognized with a tree if and only if the tree is a `Query` that stands at the first
byte of the line** and takes all of it. -/
theorem recognize_eq_ok_iff_standing {line : String} {root : Tree} :
    recognize none line = .ok root ↔
      root.kind = .node .query ∧ root.text = line ∧ Standing 0 [] [root] := by
  constructor
  · intro h
    obtain ⟨hk, hd, hsettled, -⟩ := recognize_eq_ok_iff.1 h
    obtain ⟨hplaced, hseamed, htext⟩ := seamed_of_recognize h
    refine ⟨hk, htext, ?_, ?_, List.forall_mem_singleton.2 hd, List.forall_mem_singleton.2 hsettled⟩
    · rwa [forestTokens_singleton]
    · rwa [forestTokens_singleton]
  · rintro ⟨hk, rfl, h⟩
    have hplaced := h.placed
    have hseamed := h.seamed
    rw [forestTokens_singleton] at hplaced hseamed
    exact recognize_eq_ok_iff.2
      ⟨hk, h.derivation, h.settled root (.head _), lex_of_seamed hplaced hseamed⟩

end BoolQuery
