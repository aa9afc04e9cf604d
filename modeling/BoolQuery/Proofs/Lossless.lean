/-
# Nothing of an accepted line is lost

The tokens of the tree of an accepted line are those of the line up to `Eof`, and their texts are
the line. So the tree can be stored without any places: a `StoredTree` keeps the numbers of the
kinds and the texts of the tokens, and its layout finds every place again, each part beginning where
its parent begins or where the part in front of it ends.

| place of a part | told by |
| --- | --- |
| `Token.span` | the reader, when it came upon the token |
| `Tree.span?` | the spans of the first and the last token of a node |
| `Tree.Visit.span` | the lengths of the texts in front of the part, as a listing shows it |
| `StoredTree.layout` | the same without the tree |

All of them agree on accepted lines (`recognize_lossless`).
-/

import BoolQuery.Proofs.Acceptance
import BoolQuery.Proofs.Lexing.Seams
import BoolQuery.Proofs.Nesting.Limit
import BoolQuery.Report.TreeListing

namespace BoolQuery

/-! ### Stored trees -/

/-- A tree as it is stored: kinds by their numbers, tokens by their texts, and no places. -/
inductive StoredTree
  | token (raw : Nat) (text : String)
  | node (raw : Nat) (children : List StoredTree)

namespace StoredTree

mutual

/-- The text of a stored tree. -/
def text : StoredTree → List Char
  | token _ text => text.toList
  | node _ ts => forestText ts

/-- The text of stored trees side by side. -/
def forestText : List StoredTree → List Char
  | [] => []
  | t :: ts => t.text ++ forestText ts

end

mutual

/-- The numbers of the kinds of a stored tree that begins at byte `start` and of all its parts, with
their ranges, every part in front of its own parts. -/
def layout (start : Nat) : StoredTree → List (Nat × Span)
  | token raw text => [(raw, ⟨start, Text.bytes text.toList⟩)]
  | node raw ts => (raw, ⟨start, Text.bytes (forestText ts)⟩) :: forestLayout start ts

/-- The same of stored trees side by side, each of which begins behind the text of the one
before. -/
def forestLayout (start : Nat) : List StoredTree → List (Nat × Span)
  | [] => []
  | t :: ts => t.layout start ++ forestLayout (start + Text.bytes t.text) ts

end

end StoredTree

namespace Tree

/-- The range of a tree met on a walk, as told by the texts in front of it. -/
def Visit.span (v : Visit) : Span := ⟨v.start, v.tree.extent⟩

mutual

/-- The tree as it is stored. -/
def stored : Tree → StoredTree
  | leaf t => .token t.kind.raw t.text
  | node k ts => .node (Kind.node k).raw (forestStored ts)

/-- The forest as it is stored. -/
def forestStored : Forest → List StoredTree
  | [] => []
  | t :: ts => t.stored :: forestStored ts

end

mutual

/-- Storing a tree keeps its text. -/
theorem text_stored (t : Tree) : t.stored.text = t.text.toList := by
  cases t with
  | leaf t => simp [stored, StoredTree.text, text]
  | node k ts =>
    have hts := forestText_stored ts
    simpa only [stored, StoredTree.text, text, tokens_node] using hts

theorem forestText_stored (f : Forest) :
    StoredTree.forestText (forestStored f) = (Token.joined (forestTokens f)).toList := by
  cases f with
  | nil => simp [forestStored, StoredTree.forestText]
  | cons t ts =>
    have ht := text_stored t
    have hts := forestText_stored ts
    simp only [text, Token.toList_joined] at ht hts
    simp [forestStored, StoredTree.forestText, ht, hts]

end

theorem bytes_stored (t : Tree) : Text.bytes t.stored.text = t.extent := by
  rw [text_stored, extent_eq]

mutual

/-- **Every place is found again in a stored tree.** -/
theorem layout_stored (depth start : Nat) (t : Tree) :
    t.stored.layout start = (t.walk depth start).map fun v => (v.tree.kind.raw, v.span) := by
  cases t with
  | leaf t => simp [stored, StoredTree.layout, kind, Visit.span, extent]
  | node k ts =>
    have hts := forestLayout_stored (depth + 1) start ts
    have hbytes := bytes_stored (node k ts)
    rw [stored, StoredTree.text] at hbytes
    simp [stored, StoredTree.layout, kind, Visit.span, hts, hbytes]

theorem forestLayout_stored (depth start : Nat) (f : Forest) :
    StoredTree.forestLayout start (forestStored f) =
      (forestWalk depth start f).map fun v => (v.tree.kind.raw, v.span) := by
  cases f with
  | nil => simp [forestStored, StoredTree.forestLayout]
  | cons t ts =>
    have ht := layout_stored depth start t
    have hts := forestLayout_stored depth (start + t.extent) ts
    simp [forestStored, StoredTree.forestLayout, ht, hts, bytes_stored]

end

/-! ### Walks through trees whose tokens are placed -/

mutual

/-- What passes from trees side by side to each of them, and from a node to its parts, holds of
everything that is met on a walk. -/
theorem forall_mem_walk {P : Nat → Forest → Prop}
    (hcons : ∀ start t ts, P start (t :: ts) → P start [t] ∧ P (start + t.extent) ts)
    (hnode : ∀ start k ts, P start [node k ts] → P start ts) (depth start : Nat) (t : Tree)
    (h : P start [t]) : ∀ v ∈ t.walk depth start, P v.start [v.tree] := by
  cases t with
  | leaf t =>
    rw [walk_leaf, List.forall_mem_singleton]
    exact h
  | node k ts =>
    rw [walk_node, List.forall_mem_cons]
    exact ⟨h, forall_mem_forestWalk hcons hnode (depth + 1) start ts (hnode start k ts h)⟩

theorem forall_mem_forestWalk {P : Nat → Forest → Prop}
    (hcons : ∀ start t ts, P start (t :: ts) → P start [t] ∧ P (start + t.extent) ts)
    (hnode : ∀ start k ts, P start [node k ts] → P start ts) (depth start : Nat) (f : Forest)
    (h : P start f) : ∀ v ∈ forestWalk depth start f, P v.start [v.tree] := by
  cases f with
  | nil => exact nofun
  | cons t ts =>
    obtain ⟨ht, hts⟩ := hcons start t ts h
    rw [forestWalk_cons, List.forall_mem_append]
    exact ⟨forall_mem_walk hcons hnode depth start t ht,
      forall_mem_forestWalk hcons hnode depth _ ts hts⟩

end

/-- On a walk through a derivation whose tokens are placed every tree has its tokens where it is
met. -/
theorem placed_of_mem_walk {depth start : Nat} {t : Tree} (hplaced : Placed start t.tokens)
    (hd : t.IsDerivation) :
    ∀ v ∈ t.walk depth start, Placed v.start v.tree.tokens ∧ v.tree.IsDerivation := by
  have hwalk := forall_mem_walk
    (P := fun start f => Placed start (forestTokens f) ∧ ∀ t ∈ f, t.IsDerivation) ?_ ?_ depth start
    t ⟨by rwa [forestTokens_singleton], by rwa [List.forall_mem_singleton]⟩
  · intro v hv
    have hparts := hwalk v hv
    rwa [forestTokens_singleton, List.forall_mem_singleton] at hparts
  · rintro start t ts ⟨hplaced, hd⟩
    rw [forestTokens_cons, placed_append, ← text, ← extent_eq] at hplaced
    rw [List.forall_mem_cons] at hd
    rw [forestTokens_singleton, List.forall_mem_singleton]
    exact ⟨⟨hplaced.1, hd.1⟩, hplaced.2, hd.2⟩
  · rintro start k ts ⟨hplaced, hd⟩
    rw [forestTokens_singleton] at hplaced
    rw [List.forall_mem_singleton] at hd
    exact ⟨hplaced, hd.parts⟩

/-- A derivation tree covers at least one token. -/
theorem IsDerivation.tokens_ne_nil {t : Tree} (h : t.IsDerivation) : t.tokens ≠ [] := by
  cases t with
  | leaf t => exact List.cons_ne_nil t []
  | node k ts =>
    obtain ⟨u, us, _, hus, -⟩ := h.exists_first rfl
    rw [hus]
    exact List.cons_ne_nil u us

end Tree

/-- The first and the last of placed tokens cover what the texts of all of them take. -/
theorem Placed.cover_eq {start : Nat} {ts : List Token} {first last : Token}
    (h : Placed start ts) (hfirst : ts.head? = some first) (hlast : ts.getLast? = some last) :
    first.span.cover last.span = ⟨start, Text.bytes (Token.joined ts).toList⟩ := by
  have hstart : first.span.start = start := by
    cases ts with
    | nil => cases hfirst
    | cons t ts =>
      obtain rfl := Option.some.inj hfirst
      rw [h.1]
  rcases List.eq_nil_or_concat ts with rfl | ⟨us, t, rfl⟩
  · cases hlast
  · rw [List.concat_eq_append] at h hfirst hlast ⊢
    rw [List.getLast?_append, List.getLast?_singleton] at hlast
    obtain rfl : t = last := Option.some.inj hlast
    have hspan := (placed_append.1 h).2.1
    have hbytes : Text.bytes (Token.joined (us ++ [t])).toList =
        Text.bytes (Token.joined us).toList + Text.bytes t.text.toList := by simp
    cases us with
    | nil =>
      obtain rfl := Option.some.inj hfirst
      rw [hspan, hbytes]
      simp [Span.cover, Span.stop]
    | cons u us =>
      obtain rfl := Option.some.inj hfirst
      have hu := h.1
      have hle : Text.bytes u.text.toList ≤ Text.bytes (Token.joined (u :: us)).toList := by simp
      rw [hspan, hbytes, hu]
      simp only [Span.cover, Span.stop, Span.mk.injEq]
      omega

/-- **The tokens of a tree cover what the lengths of its texts tell**, if they are placed. -/
theorem Tree.span?_of_placed {start : Nat} {t : Tree} (h : Placed start t.tokens)
    (hne : t.tokens ≠ []) : t.span? = some ⟨start, t.extent⟩ := by
  obtain ⟨first, ts, hts⟩ := List.exists_cons_of_ne_nil hne
  have hfirst : t.tokens.head? = some first := by rw [hts, List.head?_cons]
  have hlast := List.getLast?_eq_getLast_of_ne_nil hne
  rw [span?, hfirst, hlast, extent_eq, text]
  exact congrArg some (h.cover_eq hfirst hlast)

/-- The tokens of an accepted line are placed and seamed, and their texts are the line. -/
theorem seamed_of_recognize {line : String} {root : Tree} (h : recognize none line = .ok root) :
    Placed 0 root.tokens ∧ Seamed [] root.tokens ∧ Token.joined root.tokens = line := by
  obtain ⟨-, -, t, hlex, heof⟩ := isDerivation_of_recognize h
  exact seamed_of_lex hlex heof

/-- **Nothing of an accepted line is lost**, under whatever limit. The tokens of its tree are those
of the line up to `Eof`; their texts are the line, and so is the text of the stored tree. On a walk
through the tree every node covers a token, and the range told by the texts in front of a tree,
which a listing shows, is the range of its tokens and the span of the token that it is. In the same
order the stored tree has the same kinds at the same ranges. -/
theorem recognize_lossless {limit : Option Nat} {line : String} {root : Tree}
    (h : recognize limit line = .ok root) :
    (∃ t, lex line = root.tokens ++ [t] ∧ t.kind = .token .eof) ∧
    Token.joined root.tokens = line ∧
    String.ofList root.stored.text = line ∧
    (∀ v ∈ root.walk 0 0,
      v.tree.tokens ≠ [] ∧ v.tree.span? = some v.span ∧
        (∀ t, v.tree = .leaf t → t.span = v.span) ∧
        ∀ style : Report.TreeStyle, style.spans = true → style.rangeText v =
          " [" ++ toString v.span.start ++ ".." ++ toString v.span.stop ++ "]") ∧
    root.stored.layout 0 = (root.walk 0 0).map fun v => (v.tree.kind.raw, v.span) := by
  have h := recognize_of_limited h
  obtain ⟨-, hd, hlex⟩ := isDerivation_of_recognize h
  obtain ⟨hplaced, -, hjoined⟩ := seamed_of_recognize h
  refine ⟨hlex, hjoined, ?_, fun v hv => ?_, Tree.layout_stored 0 0 root⟩
  · rw [Tree.text_stored, Tree.text, hjoined, String.ofList_toList]
  · obtain ⟨hv, hdv⟩ := Tree.placed_of_mem_walk hplaced hd v hv
    refine ⟨hdv.tokens_ne_nil, Tree.span?_of_placed hv hdv.tokens_ne_nil, ?_, ?_⟩
    · intro t ht
      rw [ht] at hv
      rw [Tree.Visit.span, ht]
      exact hv.1
    · intro style hspans
      rw [Report.TreeStyle.rangeText, if_pos hspans]
      rfl

/-- The tree of `é OR -ß`, two characters of which take two bytes each. -/
def accentedChoice : Tree :=
  .node .query [.node .orTerm [
    .node .andTerm [.ofWord ⟨TokenKind.word, "é", ⟨0, 2⟩⟩],
    .leaf ⟨TokenKind.whitespace, " ", ⟨2, 1⟩⟩, .leaf ⟨TokenKind.kwOr, "OR", ⟨3, 2⟩⟩,
    .leaf ⟨TokenKind.whitespace, " ", ⟨5, 1⟩⟩,
    .node .andTerm [.node .term [.node .exclusion
      [.leaf ⟨TokenKind.excludeOp, "-", ⟨6, 1⟩⟩, .leaf ⟨TokenKind.word, "ß", ⟨7, 2⟩⟩]]]]]

/-- The stored tree of `é OR -ß` tells that the exclusion takes the bytes from 6 to 9. -/
theorem recognize_lossless_accentedChoice :
    recognize (some 6) "é OR -ß" = .ok accentedChoice ∧
      Token.joined accentedChoice.tokens = "é OR -ß" ∧
      (Kind.raw (.node .exclusion), ⟨6, 3⟩) ∈ accentedChoice.stored.layout 0 ∧
      ∀ v ∈ accentedChoice.walk 0 0, v.tree.span? = some v.span := by
  have h : recognize (some 6) "é OR -ß" = .ok accentedChoice := by decide +kernel
  obtain ⟨-, hjoined, -, hwalk, -⟩ := recognize_lossless h
  exact ⟨h, hjoined, by decide +kernel, fun v hv => (hwalk v hv).2.1⟩

end BoolQuery
