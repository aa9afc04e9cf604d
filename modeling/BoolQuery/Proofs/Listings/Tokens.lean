/-
# Token listings read back

Both listings of the tokens of a line can be undone. The JSON is decoded to one object for each
token with all that there is to a token. The text has a line for each token, which tells less:

| part of a line | read as |
| --- | --- |
| up to the first space | the name of the kind |
| behind it | the quoted text |

Nothing is lost by that. The tokens of a line stand side by side from its first byte on, so that the
texts before a token tell where it stands (`eq_of_placed`). Lines that are listed alike in one way
are listed alike in the other one, and have the same tokens.
-/

import BoolQuery.Proofs.Listings.Decoding
import BoolQuery.Proofs.Listings.Rows
import BoolQuery.Report.TokenListing

namespace BoolQuery

open Text Report

/-! ### What decides the tokens of a line -/

/-- A cut stands side by side, its last token included. -/
theorem Cut.placed {offset : Nat} {cs : List Char} {ts : List Token} (h : Cut offset cs ts) :
    Placed offset ts := by
  induction h with
  | ending | stuck _ => exact ⟨rfl, trivial⟩
  | @piece offset kind taken rest ts _ _ _ ih =>
    refine ⟨by simp, ?_⟩
    simpa using ih

/-- What the text listing tells of a token. -/
def Token.label (t : Token) : Kind × String := (t.kind, t.text)

/-- Tokens side by side from one byte on are told by their kinds and texts. -/
theorem eq_of_placed {start : Nat} {ts us : List Token} (ht : Placed start ts)
    (hu : Placed start us) (h : ts.map Token.label = us.map Token.label) : ts = us := by
  induction ts generalizing start us with
  | nil => exact (List.map_eq_nil_iff.1 h.symm).symm
  | cons t ts ih =>
    cases us with
    | nil => cases h
    | cons u us =>
      obtain ⟨hlabel, hrest⟩ := List.cons.inj h
      obtain ⟨hkind, htext⟩ := Prod.mk.inj hlabel
      have hspan : t.span = u.span := by rw [ht.1, hu.1, htext]
      obtain rfl : t = u := by
        cases t
        cases u
        simp_all
      rw [ih ht.2 hu.2 hrest]

theorem lex_eq_of_labels {line line' : String}
    (h : (lex line').map Token.label = (lex line).map Token.label) : lex line' = lex line :=
  eq_of_placed (Reader.cut_drain line'.toList 0).placed (Reader.cut_drain line.toList 0).placed h

namespace Report
namespace TokenListing

/-! ### The listing as JSON -/

/-- The value that stands for a token: its kind by name, its text and its two offsets. -/
def record (t : Token) : Json.Value :=
  .object [("kind", .string t.kind.name), ("text", .string t.text),
    ("start", .number t.span.start 0), ("end", .number t.span.stop 0)]

theorem record_injective : Function.Injective record := by
  intro t u h
  simp only [record, Json.Value.object.injEq, List.cons.injEq, Prod.mk.injEq, true_and,
    Json.Value.string.injEq, Json.Value.number.injEq, Int.natCast_inj, and_true] at h
  obtain ⟨hname, htext, hstart, hstop⟩ := h
  have hkind : t.kind = u.kind := by
    have hname := congrArg Kind.ofName? hname
    rw [Kind.ofName?_name, Kind.ofName?_name] at hname
    exact Option.some.inj hname
  have hlength : t.span.length = u.span.length := by
    simp only [Span.stop] at hstop
    omega
  obtain ⟨kind, text, start, length⟩ := t
  obtain ⟨kind', text', start', length'⟩ := u
  simp_all

/-- An object spells the record of its token. -/
theorem spells_object (t : Token) : Json.Spells 1 (object t).toList (record t) := by
  let members : List (String × List Char × Json.Value) :=
    [("kind", (Json.quote t.kind.name).toList, .string t.kind.name),
      ("text", (Json.quote t.text).toList, .string t.text),
      ("start", (toString t.span.start).toList, .number t.span.start 0),
      ("end", (toString t.span.stop).toList, .number t.span.stop 0)]
  have hmembers : ∀ m ∈ members, Json.Spells 0 m.2.1 m.2.2 := by
    simp only [members, List.forall_mem_cons]
    exact ⟨Json.Spells.quote _, Json.Spells.quote _, Json.Spells.toString _, Json.Spells.toString _,
      nofun⟩
  have htext : (object t).toList = '\x7b' :: List.intercalate [',']
      (members.map fun m => (Json.quote m.1).toList ++ ':' :: m.2.1) ++ ['\x7d'] := by
    have hname : (Json.quote "kind").toList = "\"kind\"".toList ∧
        (Json.quote "text").toList = "\"text\"".toList ∧
        (Json.quote "start").toList = "\"start\"".toList ∧
        (Json.quote "end").toList = "\"end\"".toList := by decide
    simp [object, members, List.intercalate, hname]
  rw [htext]
  exact .object hmembers

/-- **The JSON for tokens is decoded to their records**, in the same order. -/
theorem decode_json (ts : List Token) :
    Json.decode (json ts) = some (.array (ts.map record)) := by
  have htext : (json ts).toList =
      '[' :: List.intercalate [','] (ts.map fun t => (object t).toList) ++ [']'] := by
    simp [json, String.toList_intercalate, Function.comp_def]
  have hspells : Json.Spells 2 (json ts).toList (.array (ts.map record)) := by
    rw [htext]
    exact .array fun t _ => spells_object t
  refine hspells.decode ?_
  rw [← String.length_toList, htext]
  simp

/-! ### The listing as text -/

/-- The kind and the text that a line of the listing tells. -/
def read? (line : String) : Option (Kind × String) := do
  let kind ← Kind.ofName? (String.ofList (line.toList.takeWhile (· != ' ')))
  let text ← Quoted.unquote (line.toList.dropWhile (· != ' ')).tail
  some (kind, text)

/-- **A line is read back.** -/
theorem read?_tokenLine (t : Token) : read? (line t) = some t.label := by
  have hline : (line t).toList =
      t.kind.name.toList ++ ' ' :: (Quoted.quote t.text).toList := by simp [line]
  have hname : (t.kind.name.toList ++ ' ' :: (Quoted.quote t.text).toList).takeWhile (· != ' ') =
      t.kind.name.toList := takeWhile_name t.kind (by simp)
  rw [read?, hline, hname, dropWhile_append_eq_right hname, List.tail_cons, String.ofList_toList,
    Kind.ofName?_name, Quoted.unquote_quote]
  rfl

/-- No text breaks its line. -/
theorem unbroken_tokenLine (t : Token) : Unbroken (line t) := by
  have hspace : Unbroken " " := by decide
  exact ((unbroken_name t.kind).append hspace).append (Quoted.unbroken_quote t.text)

/-- The listing is split into the lines that it was made of. -/
theorem lines_text (ts : List Token) : LineRule.stream.lines (text ts) = ts.map line := by
  have hjoin : text ts = String.join ((ts.map line).map (· ++ "\n")) := by
    rw [text, List.map_map]
    rfl
  rw [hjoin]
  exact lines_join (List.forall_mem_map.2 fun t _ => unbroken_tokenLine t)

theorem map_read?_lines_text (ts : List Token) :
    (LineRule.stream.lines (text ts)).map read? = ts.map fun t => some t.label := by
  rw [lines_text, List.map_map]
  exact List.map_congr_left fun t _ => read?_tokenLine t

end TokenListing

open TokenListing

/-- **Both listings of the tokens of a line are read back.** The JSON is decoded to an array that
holds the record of each token, its kind by name, its text and its two offsets, in the order of the
tokens. The text is made of lines ended by line feeds, one for each token in the same order, and
each of them tells the kind and the text of its token. Of any two lines the listings as JSON agree
if and only if the listings as text do, and if and only if the lines have the same tokens. -/
theorem token_listings_read_back (line : String) :
    let lines := LineRule.stream.lines (text (lex line))
    Json.decode (json (lex line)) = some (.array ((lex line).map record)) ∧
    text (lex line) = String.join (lines.map (· ++ "\n")) ∧
    (∀ l ∈ lines, Unbroken l) ∧
    lines.map read? = (lex line).map (fun t => some (t.kind, t.text)) ∧
    ∀ line', (json (lex line') = json (lex line) ↔ text (lex line') = text (lex line)) ∧
      (text (lex line') = text (lex line) ↔ lex line' = lex line) := by
  intro lines
  have hlines : lines = (lex line).map TokenListing.line := lines_text _
  refine ⟨decode_json _, ?_, ?_, map_read?_lines_text _, fun line' => ?_⟩
  · rw [hlines, text, List.map_map]
    rfl
  · rw [hlines]
    exact List.forall_mem_map.2 fun t _ => unbroken_tokenLine t
  · have htext : text (lex line') = text (lex line) → lex line' = lex line := by
      intro h
      have hread := map_read?_lines_text (lex line')
      rw [h, map_read?_lines_text] at hread
      apply lex_eq_of_labels
      apply List.map_injective_iff.2 fun _ _ => Option.some.inj
      rw [List.map_map, List.map_map]
      exact hread.symm
    have hjson : json (lex line') = json (lex line) → lex line' = lex line := by
      intro h
      apply List.map_injective_iff.2 record_injective
      have hdecode := decode_json (lex line')
      rw [h, decode_json] at hdecode
      exact (Json.Value.array.inj (Option.some.inj hdecode)).symm
    exact ⟨⟨fun h => by rw [hjson h], fun h => by rw [htext h]⟩, htext, fun h => by rw [h]⟩

end Report
end BoolQuery
