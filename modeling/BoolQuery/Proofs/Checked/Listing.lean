/-
# Listing with checks

A tree is stored piece by piece: a node is begun, what is stored next becomes a part of it, and it
is ended. That breaks off if a node is ended that was never begun, and if in the end there is not
one tree. A stored tree is listed by the numbers of its kinds and the lengths of its texts, which
breaks off at a number that no kind has and at an offset that does not fit into 32 bits.

| step | nodes that are begun, the innermost first |
| --- | --- |
| a node is begun | the node, without parts, in front |
| a tree is stored | the innermost node has one part more |
| a node is ended | without the innermost node, which is stored |

Storing a tree comes to `Tree.stored`, and its listing is that of the tree (`Checked.store_eq`,
`Checked.dump_eq`).
-/

import BoolQuery.Proofs.Checked.Reading
import BoolQuery.Proofs.Lossless

namespace BoolQuery

open Report

namespace Checked

/-! ### Checked storing -/

/-- Trees that are being stored. -/
structure Storage where
  /-- The nodes that were begun and not ended, the innermost first: the number of the kind, and the
  parts so far. -/
  begun : List (Nat × List StoredTree)
  /-- What was stored outside of all nodes. -/
  roots : List StoredTree

namespace Storage

/-- Nothing is stored. -/
def empty : Storage := ⟨[], []⟩

/-- Stores a tree as the last part of the innermost node. -/
def add (t : StoredTree) (storage : Storage) : Storage :=
  match storage.begun with
  | [] => { storage with roots := storage.roots ++ [t] }
  | (raw, ts) :: outer => { storage with begun := (raw, ts ++ [t]) :: outer }

/-- Begins a node. -/
def begin (raw : Nat) (storage : Storage) : Storage :=
  { storage with begun := (raw, []) :: storage.begun }

/-- Ends the innermost node. -/
def finish (storage : Storage) : Except Breach Storage :=
  match storage.begun with
  | [] => .error .unpaired
  | (raw, ts) :: outer => .ok ({ storage with begun := outer }.add (.node raw ts))

/-- The one tree that is stored in the end. -/
def root (storage : Storage) : Except Breach StoredTree :=
  match storage.begun, storage.roots with
  | [], [t] => .ok t
  | _, _ => .error .unpaired

end Storage

mutual

/-- Stores a tree piece by piece. -/
def replay : Tree → Storage → Except Breach Storage
  | .leaf t, storage => .ok (storage.add (.token t.kind.raw t.text))
  | .node k ts, storage => do
    let storage ← replayForest ts (storage.begin (Kind.node k).raw)
    storage.finish

/-- Stores trees side by side. -/
def replayForest : Forest → Storage → Except Breach Storage
  | [], storage => .ok storage
  | t :: ts, storage => do
    let storage ← replay t storage
    replayForest ts storage

end

/-- The tree as it is stored. -/
def store (t : Tree) : Except Breach StoredTree := do
  (← replay t .empty).root

mutual

/-- A tree that is stored piece by piece is stored whole. -/
theorem replay_eq (t : Tree) (storage : Storage) :
    replay t storage = .ok (storage.add t.stored) := by
  cases t with
  | leaf t => rw [replay, Tree.stored]
  | node k ts =>
    -- What is stored next goes to the node that was begun, which has no parts yet.
    have hparts : replayForest ts (storage.begin (Kind.node k).raw) =
        .ok ⟨((Kind.node k).raw, Tree.forestStored ts) :: storage.begun, storage.roots⟩ :=
      replayForest_eq ts (Kind.node k).raw [] storage.begun storage.roots
    rw [replay, hparts, Tree.stored]
    rfl

theorem replayForest_eq (f : Forest) (raw : Nat) (ts : List StoredTree)
    (outer : List (Nat × List StoredTree)) (roots : List StoredTree) :
    replayForest f ⟨(raw, ts) :: outer, roots⟩ =
      .ok ⟨(raw, ts ++ Tree.forestStored f) :: outer, roots⟩ := by
  cases f with
  | nil => rw [replayForest, Tree.forestStored, List.append_nil]
  | cons t f =>
    rw [replayForest, replay_eq]
    show replayForest f ⟨(raw, ts ++ [t.stored]) :: outer, roots⟩ = _
    rw [replayForest_eq, Tree.forestStored, List.append_assoc, List.singleton_append]

end

/-- **Every node that is begun is ended**, and one tree is stored. -/
theorem store_eq (t : Tree) : store t = .ok t.stored := by
  rw [store, replay_eq]
  rfl

/-! ### Checked listings -/

section

variable (style : TreeStyle)

/-- The line for a tree of a kind at a range, the text of a token aside. -/
def line (depth : Nat) (kind : Kind) (span : Span) : String :=
  String.ofList (List.replicate (2 * depth) ' ') ++ kind.name ++
    if style.spans then " [" ++ toString span.start ++ ".." ++ toString span.stop ++ "]" else ""

mutual

/-- The lines for a stored tree whose text starts at byte `start`. -/
def lines (depth start : Nat) : StoredTree → Except Breach (List String)
  | .token raw text => do
    let kind ← expected (.unknownKind raw) (Kind.ofRaw? raw)
    let span ← range start (start + Text.bytes text.toList)
    if style.trivia || !kind.isTrivia then
      return [line style depth kind span ++ (" " ++ Text.Quoted.quote text)]
    else return []
  | .node raw ts => do
    let kind ← expected (.unknownKind raw) (Kind.ofRaw? raw)
    let span ← range start (start + Text.bytes (StoredTree.forestText ts))
    return line style depth kind span :: (← forestLines (depth + 1) start ts)

/-- The lines for stored trees side by side. -/
def forestLines (depth start : Nat) : List StoredTree → Except Breach (List String)
  | [] => return []
  | t :: ts => do
    let first ← lines depth start t
    return first ++ (← forestLines depth (start + Text.bytes t.text) ts)

end

/-- The listing of a tree, which is stored first. -/
def dump (root : Tree) : Except Breach String := do
  return String.join ((← lines style 0 0 (← store root)).map (· ++ "\n"))

end

theorem expected_kind {k : Kind} (hk : k ≠ .endMark) :
    expected (.unknownKind k.raw) (Kind.ofRaw? k.raw) = .ok k := by
  rw [Kind.ofRaw?_raw hk, expected]

mutual

/-- Every kind of a derivation is found again by its number, and its ranges fit if its text does. -/
theorem lines_eq (style : TreeStyle) (depth start : Nat) (t : Tree) (h : t.IsDerivation)
    (hfits : start + t.extent < 2 ^ 32) : lines style depth start t.stored =
      .ok (((t.walk depth start).filter fun v => style.shows v.tree).map style.line) := by
  cases t with
  | leaf t =>
    have hkind : t.kind ≠ .endMark := by
      cases h with
      | leaf hk =>
        rw [hk]
        nofun
    have hrange : range start (start + Text.bytes t.text.toList) =
        .ok ⟨start, Text.bytes t.text.toList⟩ :=
      range_add hfits
    rw [Tree.stored, lines, expected_kind hkind]
    show (range start (start + Text.bytes t.text.toList) >>= _) = _
    rw [hrange, Tree.walk_leaf, List.filter_singleton]
    have hshows : (style.trivia || !t.kind.isTrivia) = style.shows (.leaf t) := rfl
    rw [hshows]
    cases style.shows (.leaf t) <;> rfl
  | node k ts =>
    have hforest := forestLines_eq style (depth + 1) start ts h.parts hfits
    have hbytes : Text.bytes (StoredTree.forestText (Tree.forestStored ts)) =
        (Tree.node k ts).extent :=
      Tree.bytes_stored (.node k ts)
    have hkind : Kind.node k ≠ .endMark := nofun
    rw [Tree.stored, lines, expected_kind hkind]
    show (range start (start + Text.bytes (StoredTree.forestText (Tree.forestStored ts))) >>= _) = _
    rw [hbytes, range_add hfits]
    show (forestLines style (depth + 1) start (Tree.forestStored ts) >>= _) = _
    rw [hforest, Tree.walk_node, List.filter_cons_of_pos rfl, List.map_cons]
    have hline : style.line ⟨depth, start, .node k ts⟩ =
        line style depth (.node k) ⟨start, (Tree.node k ts).extent⟩ := String.append_empty
    rw [hline]
    rfl

theorem forestLines_eq (style : TreeStyle) (depth start : Nat) (f : Forest)
    (h : ∀ t ∈ f, t.IsDerivation) (hfits : start + Tree.forestExtent f < 2 ^ 32) :
    forestLines style depth start (Tree.forestStored f) =
      .ok (((Tree.forestWalk depth start f).filter fun v => style.shows v.tree).map style.line) := by
  cases f with
  | nil => rfl
  | cons t ts =>
    rw [List.forall_mem_cons] at h
    rw [Tree.forestExtent] at hfits
    have ht := lines_eq style depth start t h.1 (by omega)
    have hts := forestLines_eq style depth (start + t.extent) ts h.2 (by omega)
    rw [Tree.forestStored, forestLines, ht, Tree.bytes_stored]
    show (forestLines style depth (start + t.extent) (Tree.forestStored ts) >>= _) = _
    rw [hts, Tree.forestWalk_cons, List.filter_append, List.map_append]
    rfl

end

/-- **A checked listing never breaks off** if the text fits. -/
theorem dump_eq (style : TreeStyle) {root : Tree} (h : root.IsDerivation)
    (hfits : root.extent < 2 ^ 32) : dump style root = .ok (style.dump root) := by
  have hlines := lines_eq style 0 0 root h (by omega)
  rw [dump, store_eq]
  show (lines style 0 0 root.stored >>= _) = _
  rw [hlines]
  rfl

end Checked
end BoolQuery
