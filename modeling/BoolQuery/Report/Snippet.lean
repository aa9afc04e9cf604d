/-
# Pointing at a place of a text

A snippet shows the line that a range starts in, and marks the range below it:

    error: TITLE
      |
    2 | a AND AND b
      |       ^^^ LABEL

Lines end at a line feed, with one carriage return before it, and are numbered from 1. An offset
belongs to the line that it lies in, terminator included; one past everything belongs to the last
line. Marks stand below the characters that they mean: columns are counted as the line is shown,
up to the end of the line.

| character | shown |
| --- | --- |
| tab | four spaces |
| other controls of ASCII | the picture of the control |
| zero width joiner | nothing |
| directional embeddings, overrides and isolates | U+FFFD |
-/

import BoolQuery.Report.Palette
import BoolQuery.Text.Bytes
import BoolQuery.Text.Lines
import BoolQuery.Token
import BoolQuery.Unicode.Columns

namespace BoolQuery
namespace Report
namespace Snippet

/-- What is shown for a character. -/
def shown (c : Char) : List Char :=
  if c = '\t' then [' ', ' ', ' ', ' ']
  else if c.toNat < 0x20 then [Char.ofNat (0x2400 + c.toNat)]
  else if c = '\x7f' then ['\u2421']
  else if c = '\u200d' then []
  else if '\u202a' ≤ c ∧ c ≤ '\u202e' ∨ '\u2066' ≤ c ∧ c ≤ '\u2069' then ['\ufffd']
  else [c]

/-- The columns that a text fills as it is shown. -/
def width (cs : List Char) : Nat :=
  (cs.flatMap shown).foldl (fun n c => n + Unicode.columns c) 0

/-- A line of a text. -/
structure Line where
  /-- Its number, from 1. -/
  number : Nat
  /-- The offset of its first character. -/
  start : Nat
  /-- The offset behind its terminator. -/
  stop : Nat
  /-- Its characters without the terminator. -/
  text : List Char

/-- The lines for the pieces of a text between line feeds, the first of them being line `number`
at offset `start`. Nothing after the last line feed is no line, unless it is all there is. -/
def linesFrom (number start : Nat) : List (List Char) → List Line
  | [] => []
  | [p] => if p = [] ∧ number ≠ 1 then [] else [⟨number, start, start + Text.bytes p, p⟩]
  | p :: ps =>
    let stop := start + Text.bytes p + 1
    ⟨number, start, stop, Text.dropReturn p⟩ :: linesFrom (number + 1) stop ps

/-- The lines of a text. -/
def lines (source : List Char) : List Line := linesFrom 1 0 (Text.pieces '\n' source)

/-- The line that an offset belongs to. -/
def lineAt (source : List Char) (offset : Nat) : Line :=
  match (lines source).find? (fun l => l.start ≤ offset && offset < l.stop) with
  | some l => l
  | none => (lines source).getLastD ⟨1, 0, 0, []⟩

/-- The column in a line at which an offset is shown. -/
def Line.column (l : Line) (offset : Nat) : Nat :=
  width (Text.startingBefore (offset - l.start) l.text)

/-- The range that a mark for a span stands for. An empty span means the character behind it, if
there is one, and there must be a character boundary of the text for that. Any other span means
itself. -/
def adjust? (source : List Char) (span : Span) : Option Span :=
  if span.length = 0 then
    (Text.dropBytes? span.start source).map fun after =>
      ⟨span.start, (after.head?.map Char.utf8Size).getD 0⟩
  else some span

/-- A range can be marked if it starts and ends at character boundaries of the text with a line feed
behind it. -/
def canMark (source : List Char) (range : Span) : Bool :=
  (Text.dropBytes? range.start (source ++ ['\n'])).isSome &&
    (Text.dropBytes? range.stop (source ++ ['\n'])).isSome

/-- The range that is marked for a span, if it can be. -/
def aim? (source : List Char) (span : Span) : Option Span :=
  (adjust? source span).filter (canMark source)

/-- A piece of the text can be marked. -/
theorem canMark_append (before marked after : List Char) :
    canMark (before ++ marked ++ after) ⟨Text.bytes before, Text.bytes marked⟩ = true := by
  have hstart := Text.dropBytes?_append before (marked ++ after ++ ['\n'])
  have hstop := Text.dropBytes?_append (before ++ marked) (after ++ ['\n'])
  simp only [Text.bytes_append, List.append_assoc] at hstart hstop
  simp [canMark, Span.stop, hstart, hstop]

/-- **What an empty span means can be marked**, where it means anything. -/
theorem aim?_of_length_eq_zero {source : List Char} {span : Span} (h : span.length = 0) :
    aim? source span = adjust? source span := by
  rw [aim?, adjust?, if_pos h]
  cases hafter : Text.dropBytes? span.start source with
  | none => rfl
  | some after =>
    obtain ⟨before, rfl, hstart⟩ := Text.exists_of_dropBytes? hafter
    refine Option.filter_eq_some_iff.2 ⟨rfl, ?_⟩
    rw [← hstart]
    cases after with
    | nil => simpa using canMark_append before [] []
    | cons c after => simpa using canMark_append before [c] after

/-- Any other span is marked as it is, if it can be. -/
theorem aim?_of_length_ne_zero {source : List Char} {span : Span} (h : span.length ≠ 0) :
    aim? source span = if canMark source span then some span else none := by
  rw [aim?, adjust?, if_neg h]
  rfl

/-- A text in bold and a colour, if the snippet is coloured. -/
def paint (coloured : Bool) (colour text : String) : String :=
  if coloured then
    Palette.select "1" ++ Palette.select colour ++ text ++ Palette.select "0"
  else text

/-- The first line of a snippet. -/
def titleLine (coloured : Bool) (title : String) : String :=
  if coloured then
    paint true "91" "error" ++ Palette.select "1" ++ ": " ++ title ++ Palette.select "0"
  else "error: " ++ title

/-- A snippet of `source` that marks `span` under the given title and label. -/
def render (coloured : Bool) (title label : String) (source : List Char) (span : Span) : String :=
  let l := lineAt source span.start
  let number := toString l.number
  let bar := paint coloured "94" "|"
  let margin := String.ofList (List.replicate (number.length + 1) ' ') ++ bar
  let code := l.text.flatMap shown
  let first := l.column span.start
  let marks := String.ofList (List.replicate (max 1 (l.column span.stop - first)) '^')
  let codeLine := paint coloured "94" number ++ " " ++ bar ++
    if code = [] then "" else " " ++ String.ofList code
  let markLine := margin ++ " " ++ String.ofList (List.replicate first ' ') ++
    paint coloured "91" marks ++ " " ++ paint coloured "91" label
  String.intercalate "\n" [titleLine coloured title, margin, codeLine, markLine]

end Snippet
end Report
end BoolQuery
