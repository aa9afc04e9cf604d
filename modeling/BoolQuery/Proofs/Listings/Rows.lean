/-
# Tree listings read back

A line of a tree listing tells how deep a tree stands, its kind, and if it is a token its text:

| part of a line | read as |
| --- | --- |
| spaces | two for every level |
| up to the next space | the name of the kind |
| from ` [` up to `]` | a range, if ranges are shown |
| a space and a quoted text | the text of a token |

Texts are quoted, and so no text can end its line or be taken for another part of one. What all
lines tell are the rows of the tree, each node and each token once and every node before its parts.
The texts of an accepted line are the line, and the line decides its tree: a listing with all tokens
shows no two lines alike.
-/

import BoolQuery.Proofs.Listings.ReadBack
import BoolQuery.Proofs.Lossless

namespace BoolQuery

open Lexicon Text

/-! ### Rows -/

/-- What a listing tells of a node or a token. -/
structure Row where
  depth : Nat
  kind : Kind
  /-- The text of a token. -/
  text : Option String
  deriving DecidableEq, Repr

namespace Tree

mutual

/-- The rows of a tree at a depth, every node before its parts. -/
def rows (depth : Nat) : Tree → List Row
  | leaf t => [⟨depth, t.kind, some t.text⟩]
  | node k ts => ⟨depth, .node k, none⟩ :: forestRows (depth + 1) ts

/-- The rows of trees side by side. -/
def forestRows (depth : Nat) : Forest → List Row
  | [] => []
  | t :: ts => t.rows depth ++ forestRows depth ts

end

/-- The row of a tree that is met on a walk. -/
def Visit.row (v : Visit) : Row where
  depth := v.depth
  kind := v.tree.kind
  text :=
    match v.tree with
    | leaf t => some t.text
    | node _ _ => none

mutual

/-- The rows of a tree are those met on a walk through it. -/
theorem rows_eq (depth start : Nat) (t : Tree) :
    t.rows depth = (t.walk depth start).map Visit.row := by
  cases t with
  | leaf t => rfl
  | node k ts => simp [rows, Visit.row, kind, forestRows_eq (depth + 1) start ts]

theorem forestRows_eq (depth start : Nat) (f : Forest) :
    forestRows depth f = (forestWalk depth start f).map Visit.row := by
  cases f with
  | nil => rfl
  | cons t ts =>
    simp [forestRows, rows_eq depth start t, forestRows_eq depth (start + t.extent) ts]

end

mutual

/-- The texts in the rows of a tree are those of its tokens. -/
theorem texts_rows (depth : Nat) (t : Tree) :
    (t.rows depth).filterMap Row.text = t.tokens.map Token.text := by
  cases t with
  | leaf t => rfl
  | node k ts => simp [rows, texts_forestRows (depth + 1) ts]

theorem texts_forestRows (depth : Nat) (f : Forest) :
    (forestRows depth f).filterMap Row.text = (forestTokens f).map Token.text := by
  cases f with
  | nil => rfl
  | cons t ts => simp [forestRows, texts_rows depth t, texts_forestRows depth ts]

end

/-- Trees with the same rows have the same text. -/
theorem text_eq_of_rows {t u : Tree} (h : t.rows 0 = u.rows 0) : t.text = u.text := by
  have htexts : t.tokens.map Token.text = u.tokens.map Token.text := by
    rw [← texts_rows 0 t, h, texts_rows]
  have hjoined : ∀ ts : List Token,
      Token.joined ts = String.ofList ((ts.map Token.text).flatMap String.toList) := by
    intro ts
    rw [Token.joined, List.flatMap_map]
  rw [text, text, hjoined, hjoined, htexts]

end Tree

/-! ### The parts of a line -/

namespace Row

/-- What stands behind a range. Where no range is shown nothing is left out. -/
def behindRange (cs : List Char) : List Char :=
  if [' ', '['] <+: cs then (cs.dropWhile (· != ']')).tail else cs

/-- The row that a line of a listing tells. -/
def read? (line : String) : Option Row := do
  let indentation := line.toList.takeWhile (· == ' ')
  let shown := line.toList.dropWhile (· == ' ')
  let kind ← Kind.ofName? (String.ofList (shown.takeWhile (· != ' ')))
  match behindRange (shown.dropWhile (· != ' ')) with
  | [] => some ⟨indentation.length / 2, kind, none⟩
  | _ :: quoted =>
    (Quoted.unquote quoted).map fun text => ⟨indentation.length / 2, kind, some text⟩

end Row

/-- The name of a kind has no blanks. -/
theorem Kind.name_plain (k : Kind) :
    k.name.toList ≠ [] ∧ ∀ c ∈ k.name.toList, isBlank c = false := by
  have hall : k.name.toList ≠ [] ∧ (k.name.toList.all fun c => !isBlank c) = true := by
    cases k with
    | token k => cases k <;> decide
    | node k => cases k <;> decide
    | endMark => decide
  exact ⟨hall.1, by simpa using hall.2⟩

theorem unbroken_name (k : Kind) : Unbroken k.name := by
  constructor <;> exact fun h => absurd (k.name_plain.2 _ h) (by decide)

theorem ne_space_of_mem_name {k : Kind} {c : Char} (hc : c ∈ k.name.toList) : c ≠ ' ' := by
  rintro rfl
  exact absurd (k.name_plain.2 _ hc) (by decide)

/-- A name ends where the first space stands behind it. -/
theorem takeWhile_name (k : Kind) {behind : List Char}
    (h : ∀ c ∈ behind.head?, (c != ' ') = false) :
    (k.name.toList ++ behind).takeWhile (· != ' ') = k.name.toList := by
  rw [takeWhile_append_eq_left]
  exact ⟨fun c hc => bne_iff_ne.2 (ne_space_of_mem_name hc), h⟩

/-- An indentation ends where a name begins. -/
theorem takeWhile_indentation (n : Nat) (k : Kind) (behind : List Char) :
    (List.replicate n ' ' ++ (k.name.toList ++ behind)).takeWhile (· == ' ') =
      List.replicate n ' ' := by
  rw [takeWhile_append_eq_left]
  constructor
  · intro c hc
    simpa using (List.mem_replicate.1 hc).2
  · obtain ⟨c, cs, hname⟩ := List.exists_cons_of_ne_nil k.name_plain.1
    have hc : c ≠ ' ' := ne_space_of_mem_name (k := k) (by simp [hname])
    simpa [hname] using hc

theorem unbroken_toString (n : Nat) : Unbroken (toString n) := by
  constructor <;> exact fun h => absurd (isDigit_of_mem_toString h) (by decide)

namespace Report
namespace TreeStyle

variable (style : TreeStyle) (v : Tree.Visit)

theorem unbroken_rangeText : Unbroken (style.rangeText v) := by
  unfold rangeText
  split
  · have hopen : Unbroken " [" := by decide
    have hdots : Unbroken ".." := by decide
    have hclose : Unbroken "]" := by decide
    exact (((hopen.append (unbroken_toString _)).append hdots).append
      (unbroken_toString _)).append hclose
  · decide

theorem unbroken_tokenText (t : Tree) : Unbroken (tokenText t) := by
  cases t with
  | leaf t =>
    have hspace : Unbroken " " := by decide
    exact hspace.append (Quoted.unbroken_quote t.text)
  | node k ts =>
    show Unbroken ""
    decide

/-- **No text breaks its line.** -/
theorem unbroken_line : Unbroken (style.line v) := by
  have hindentation : Unbroken (String.ofList (List.replicate (2 * v.depth) ' ')) := by
    simp [Unbroken, List.mem_replicate]
  exact ((hindentation.append (unbroken_name v.tree.kind)).append
    (style.unbroken_rangeText v)).append (unbroken_tokenText v.tree)

/-- A quoted text is not taken for a range, and a range is left out up to its end. -/
theorem behindRange_rangeText :
    Row.behindRange ((style.rangeText v).toList ++ (tokenText v.tree).toList) =
      (tokenText v.tree).toList := by
  by_cases hspans : style.spans = true
  · have hdigit : ∀ n : Nat, ∀ c ∈ (toString n).toList, (c != ']') = true := by
      intro n c hc
      have hc := isDigit_of_mem_toString hc
      rw [bne_iff_ne]
      rintro rfl
      cases hc
    have hrange : (style.rangeText v).toList =
        " [".toList ++ (toString v.start).toList ++ "..".toList ++
          (toString (v.start + v.tree.extent)).toList ++ [']'] := by
      simp [rangeText, hspans]
    have hinner : ∀ c ∈ " [".toList ++ (toString v.start).toList ++ "..".toList ++
        (toString (v.start + v.tree.extent)).toList, (c != ']') = true := by
      simp only [List.forall_mem_append]
      exact ⟨⟨⟨by simp, hdigit _⟩, by simp⟩, hdigit _⟩
    rw [hrange, Row.behindRange, if_pos (by simp), List.append_assoc,
      List.dropWhile_append_of_pos hinner]
    simp
  · have hrange : (style.rangeText v).toList = [] := by simp [rangeText, hspans]
    rw [hrange, List.nil_append, Row.behindRange, if_neg]
    cases v.tree <;> simp [tokenText, Quoted.quote]

/-- What stands behind the name of a kind is nothing or begins with a space. -/
theorem head?_behind_name :
    ∀ c ∈ ((style.rangeText v).toList ++ (tokenText v.tree).toList).head?, (c != ' ') = false := by
  unfold rangeText
  split
  · simp
  · cases v.tree <;> simp [tokenText]

/-- **A line tells the row of the tree that it was made for.** -/
theorem read?_line : Row.read? (style.line v) = some v.row := by
  let behind := (style.rangeText v).toList ++ (tokenText v.tree).toList
  have hline : (style.line v).toList =
      List.replicate (2 * v.depth) ' ' ++ (v.tree.kind.name.toList ++ behind) := by
    simp [line, behind]
  have hindentation := takeWhile_indentation (2 * v.depth) v.tree.kind behind
  have hname := takeWhile_name v.tree.kind (style.head?_behind_name v)
  have hbehind : Row.behindRange behind = (tokenText v.tree).toList := style.behindRange_rangeText v
  rw [Row.read?, hline, hindentation, dropWhile_append_eq_right hindentation, hname,
    dropWhile_append_eq_right hname, hbehind, String.ofList_toList, Kind.ofName?_name,
    List.length_replicate, Nat.mul_div_cancel_left _ (by decide)]
  obtain ⟨depth, start, tree⟩ := v
  cases tree with
  | leaf t =>
    have htext : (tokenText (.leaf t)).toList = ' ' :: (Quoted.quote t.text).toList := by
      simp [tokenText]
    simp only [htext, Option.bind_eq_bind, Option.bind_some, Quoted.unquote_quote, Option.map_some]
    rfl
  | node k ts => rfl

/-! ### All lines -/

/-- A listing is split into the lines that it was made of. -/
theorem lines_dump (t : Tree) : LineRule.stream.lines (style.dump t) = style.lines t := by
  refine lines_join fun l hl => ?_
  obtain ⟨v, -, rfl⟩ := List.mem_map.1 hl
  exact style.unbroken_line v

variable (spans : Bool)

/-- A listing that shows all tokens has a line for each row of the tree, in the same order. -/
theorem map_read?_lines (t : Tree) :
    ((TreeStyle.mk true spans).lines t).map Row.read? = (t.rows 0).map some := by
  have hall : ∀ v : Tree.Visit, (TreeStyle.mk true spans).shows v.tree = true := by
    intro v
    cases v.tree <;> rfl
  have hread : Row.read? ∘ (TreeStyle.mk true spans).line = some ∘ Tree.Visit.row :=
    funext fun v => read?_line _ v
  rw [lines, List.filter_eq_self.2 fun v _ => hall v, Tree.rows_eq 0 0, List.map_map, List.map_map,
    hread]

/-- A listing without whitespace tokens has the other lines of the one that shows all tokens. -/
theorem lines_without_trivia (t : Tree) :
    (TreeStyle.mk false spans).lines t = ((TreeStyle.mk true spans).lines t).filter
      fun l => (Row.read? l).map Row.kind != some (.token .whitespace) := by
  have hshows : ∀ v : Tree.Visit, (TreeStyle.mk false spans).shows v.tree =
      ((TreeStyle.mk true spans).shows v.tree &&
        (Row.read? ((TreeStyle.mk true spans).line v)).map Row.kind !=
          some (.token .whitespace)) := by
    intro v
    rw [read?_line]
    obtain ⟨depth, start, tree⟩ := v
    cases tree with
    | leaf t => simp [shows, Kind.isTrivia, Tree.Visit.row, Tree.kind, bne]
    | node k ts => simp [shows, Tree.Visit.row, Tree.kind]
  have hline : (TreeStyle.mk false spans).line = (TreeStyle.mk true spans).line := rfl
  rw [lines, lines, List.filter_map, hline, List.filter_filter]
  refine congrArg _ (List.filter_congr fun v _ => ?_)
  rw [hshows, Bool.and_comm, Function.comp_apply]

end TreeStyle

/-- **A tree listing is faithful.** Split into lines, the listing of an accepted line with all
tokens tells the rows of its tree, one line for every node and every token and in the same order,
and no text breaks a line. Two accepted lines with the same listing are the same and have the same
tree, whether ranges are shown or not, and whatever the limits. The listing without whitespace
tokens is what is left of the other one without exactly the lines of whitespace tokens. -/
theorem dump_faithful {limit : Option Nat} {line : String} {root : Tree}
    (h : recognize limit line = .ok root) (spans : Bool) :
    let dump := (TreeStyle.mk true spans).dump root
    let lines := LineRule.stream.lines dump
    dump = String.join (lines.map (· ++ "\n")) ∧
    lines.map Row.read? = (root.rows 0).map some ∧
    (∀ l ∈ lines, Unbroken l) ∧
    (∀ limit' line' root' spans', recognize limit' line' = .ok root' →
      (TreeStyle.mk true spans').dump root' = dump → line' = line ∧ root' = root) ∧
    (TreeStyle.mk false spans).dump root = String.join ((lines.filter fun l =>
      (Row.read? l).map Row.kind != some (.token .whitespace)).map (· ++ "\n")) := by
  intro dump lines
  have hlines : lines = (TreeStyle.mk true spans).lines root := TreeStyle.lines_dump _ root
  refine ⟨?_, ?_, ?_, ?_, ?_⟩
  · rw [hlines]
    rfl
  · rw [hlines, TreeStyle.map_read?_lines]
  · rw [hlines]
    intro l hl
    obtain ⟨v, -, rfl⟩ := List.mem_map.1 hl
    exact TreeStyle.unbroken_line _ v
  · intro limit' line' root' spans' h' hdump
    have hrows : root'.rows 0 = root.rows 0 := by
      have hread : ((root'.rows 0).map some) = (root.rows 0).map some := by
        rw [← TreeStyle.map_read?_lines spans', ← TreeStyle.map_read?_lines spans,
          ← TreeStyle.lines_dump, ← TreeStyle.lines_dump, hdump]
      exact List.map_injective_iff.2 (fun _ _ => Option.some.inj) hread
    have hroot := recognize_of_limited h
    have hroot' := recognize_of_limited h'
    have hline : line' = line := by
      rw [← (seamed_of_recognize hroot).2.2, ← (seamed_of_recognize hroot').2.2]
      exact Tree.text_eq_of_rows hrows
    subst hline
    rw [hroot] at hroot'
    exact ⟨rfl, (Except.ok.inj hroot').symm⟩
  · rw [hlines, ← TreeStyle.lines_without_trivia]
    rfl

/-- A phrase with a line break, what looks like a line of a listing, what looks like a code point
and a character without a width, and behind it a whitespace token that is a line break. -/
def brokenPhrase : Tree :=
  .node .query [.node .orTerm [
    .node .andTerm [.node .term [.node .phraseOrWords
      [.leaf ⟨TokenKind.phrase, "\"\n  Word \\u\x7b41\x7d\u200b\"", ⟨0, 19⟩⟩]]],
    .leaf ⟨TokenKind.whitespace, "\n", ⟨19, 1⟩⟩, .leaf ⟨TokenKind.kwOr, "OR", ⟨20, 2⟩⟩,
    .leaf ⟨TokenKind.whitespace, " ", ⟨22, 1⟩⟩,
    .node .andTerm [.ofWord ⟨TokenKind.word, "b", ⟨23, 1⟩⟩]]]

/-- Such a phrase is on one line of the listing, and read back from it. -/
theorem dump_faithful_brokenPhrase :
    recognize (some 7) brokenPhrase.text = .ok brokenPhrase ∧
      some ⟨5, TokenKind.phrase, some "\"\n  Word \\u\x7b41\x7d\u200b\""⟩ ∈
        (LineRule.stream.lines ((TreeStyle.mk true true).dump brokenPhrase)).map Row.read? := by
  have h : recognize (some 7) brokenPhrase.text = .ok brokenPhrase := by decide +kernel
  refine ⟨h, ?_⟩
  rw [(dump_faithful h true).2.1]
  exact List.mem_map_of_mem (by decide +kernel)

end Report
end BoolQuery
