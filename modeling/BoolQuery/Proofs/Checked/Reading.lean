/-
# Reading with checks

Some operations are not meant for all arguments. A *checked* computation looks first whether it may
do what it is about to do, and breaks off where it may not:

| operation | breaks off |
| --- | --- |
| a text is cut at an offset | beyond its end and inside a character |
| a range is kept | if an end of it takes more than 32 bits, or the ends are reversed |
| a production is opened | if the depth takes more than 32 bits |
| a token, a production or a node is asked for by its kind | if there is none of that kind |
| an alternative is taken for granted | if none matches |
| a node is ended while a tree is stored | if none was begun |
| the number of a kind is read | if no kind has it |

Checked reading cuts every token out of the line anew, at the offset of the reader; the rest of the
line that the reader carries along is not looked at. In lines of less than `2 ^ 32` bytes it never
breaks off and gives the same tokens (`Checked.scan_eq`, `Checked.lex_eq`).
-/

import BoolQuery.Proofs.Lexing.Cut
import BoolQuery.Recognizer.State
import Mathlib.Algebra.Group.Nat.Defs

namespace BoolQuery

/-- Why a checked computation breaks off. -/
inductive Breach
  /-- A text was to be cut beyond its end or inside a character. -/
  | cut (offset : Nat)
  /-- A range was to be kept that does not fit into 32 bits, or that ends before it starts. -/
  | range (start stop : Nat)
  /-- The depth takes more than 32 bits. -/
  | depth (depth : Nat)
  /-- No alternative matched where one always does. -/
  | noAlternative
  /-- Nodes were not begun and ended in pairs. -/
  | unpaired
  /-- No kind has the number. -/
  | unknownKind (raw : Nat)
  /-- The attempt itself ends without an answer. -/
  | fault (fault : Recognizer.Fault)

/-- The reader stands in the line: the rest is what follows the bytes that the offset counts. -/
def Reader.StandsIn (line : List Char) (r : Reader) : Prop :=
  ∃ before, line = before ++ r.rest ∧ Text.bytes before = r.offset

namespace Checked

/-! ### Operations that are checked -/

/-- A value that has to be there. -/
def expected {α : Type} (breach : Breach) : Option α → Except Breach α
  | some a => .ok a
  | none => .error breach

/-- What follows the first bytes of a text. -/
def cutFrom (offset : Nat) (cs : List Char) : Except Breach (List Char) :=
  expected (.cut offset) (Text.dropBytes? offset cs)

/-- The first bytes of a text. -/
def cutUpTo (offset : Nat) (cs : List Char) : Except Breach (List Char) := do
  let rest ← cutFrom offset cs
  return cs.take (cs.length - rest.length)

/-- The range between two offsets. -/
def range (start stop : Nat) : Except Breach Span :=
  if start < 2 ^ 32 ∧ stop < 2 ^ 32 then
    expected (.range start stop) (Span.between? start stop)
  else .error (.range start stop)

/-- **A text is cut at the borders of its characters**, and nowhere else. -/
theorem cutFrom_eq_ok {offset : Nat} {cs rest : List Char} :
    cutFrom offset cs = .ok rest ↔ ∃ before, cs = before ++ rest ∧ Text.bytes before = offset := by
  constructor
  · intro h
    unfold cutFrom expected at h
    split at h
    · rename_i found hfound
      cases h
      exact Text.exists_of_dropBytes? hfound
    · cases h
  · rintro ⟨before, rfl, rfl⟩
    rw [cutFrom, Text.dropBytes?_append, expected]

/-- The sign takes three bytes, and one of them is not all of it. -/
example : cutFrom 1 ['€'] = .error (.cut 1) := by rfl

/-- Cutting at the byte where `before` ends falls on a boundary and gives `before`. -/
theorem cutUpTo_append (before rest : List Char) :
    cutUpTo (Text.bytes before) (before ++ rest) = .ok before := by
  have htake : (before ++ rest).take ((before ++ rest).length - rest.length) = before := by
    rw [List.length_append, Nat.add_sub_cancel, List.take_left]
  rw [cutUpTo, cutFrom_eq_ok.2 ⟨before, rfl, rfl⟩]
  exact congrArg Except.ok htake

/-- **A range is kept if its end fits into 32 bits** and is not in front of its start. -/
theorem range_eq_ok {start stop : Nat} {span : Span} :
    range start stop = .ok span ↔ start ≤ stop ∧ stop < 2 ^ 32 ∧ span = ⟨start, stop - start⟩ := by
  unfold range Span.between?
  constructor
  · intro h
    split at h
    · rename_i hfits
      split at h
      · rename_i hle
        cases h
        exact ⟨hle, hfits.2, rfl⟩
      · cases h
    · cases h
  · rintro ⟨hle, hfits, rfl⟩
    rw [if_pos ⟨by omega, hfits⟩, if_pos hle, expected]

/-- A range whose end is below 2³² has its start and its length as they are. -/
theorem range_add {start length : Nat} (h : start + length < 2 ^ 32) :
    range start (start + length) = .ok ⟨start, length⟩ := by
  refine range_eq_ok.2 ⟨Nat.le_add_right .., h, ?_⟩
  rw [Nat.add_sub_cancel_left]

/-! ### Checked readers -/

section

variable (line : List Char)

/-- Reads a token that takes nothing of the line. -/
def zeroWidth (kind : TokenKind) (r : Reader) : Except Breach (Token × Reader) := do
  let span ← range r.offset r.offset
  return (⟨kind, "", span⟩, r)

/-- Reads a token of the kind of a rule, which takes the first `stop` bytes of the rest of the
line. -/
def piece (kind : TokenKind) (stop : Nat) (rest : List Char) (r : Reader) :
    Except Breach (Token × Reader) := do
  let text ← cutUpTo stop rest
  let after ← cutFrom stop rest
  let span ← range r.offset (r.offset + Text.bytes text)
  return (⟨Lexicon.promote kind text after, String.ofList text, span⟩,
    { r with rest := after, offset := r.offset + Text.bytes text })

/-- Scans one token at the offset of a reader. -/
def scan (r : Reader) : Except Breach (Token × Reader) := do
  let rest ← cutFrom r.offset line
  if rest = [] then zeroWidth .eof r
  else match Lexicon.longest? rest Lexicon.rules with
    | none => zeroWidth .unknown r
    | some (kind, taken) => piece kind (Text.bytes taken) rest r

/-- Reads one token: one that was given back if there is any, else a new one. -/
def next (r : Reader) : Except Breach (Token × Reader) :=
  match r.pushed with
  | t :: ts => .ok (t, { r with pushed := ts })
  | [] => scan line r

/-- Reads up to the first token without width, less than `bound` tokens. -/
def drainWithin : (bound : Nat) → Reader → Except Breach (List Token)
  | 0, _ => .error (.fault .endless)
  | bound + 1, r => do
    let (t, r) ← next line r
    if t.kind.isZeroWidth then return [t]
    else return t :: (← drainWithin bound r)

end

/-- All tokens of a line, up to the first without width. -/
def lex (line : String) : Except Breach (List Token) :=
  drainWithin line.toList (line.toList.length + 1) (.ofString line)

end Checked

namespace Reader

variable {line : List Char} {r : Reader}

/-- A fresh reader stands at the start of its line. -/
theorem standsIn_ofString (line : String) : (ofString line).StandsIn line.toList :=
  ⟨[], rfl, rfl⟩

/-- Tokens pushed back do not move the reader in its line. -/
theorem StandsIn.pushAll (h : r.StandsIn line) (ts : List Token) :
    (r.pushAll ts).StandsIn line := by
  rw [pushAll_eq]
  exact h

/-- Scanning a token moves the reader by a whole piece of its line. -/
theorem StandsIn.scan (h : r.StandsIn line) : r.scan.2.StandsIn line := by
  obtain ⟨before, hline, hoffset⟩ := h
  have hprefix : (Lexicon.lexeme r.rest).2 ++ r.rest.drop (Lexicon.lexeme r.rest).2.length =
      r.rest := by
    rcases Lexicon.lexeme_cases r.rest with ⟨-, hl⟩ | ⟨-, hl, -⟩ | ⟨-, -, hprefix⟩
    · rw [hl]
      rfl
    · rw [hl]
      rfl
    · exact List.prefix_iff_eq_append.1 hprefix
  refine ⟨before ++ (Lexicon.lexeme r.rest).2, ?_, ?_⟩
  · show line = before ++ (Lexicon.lexeme r.rest).2 ++ r.rest.drop (Lexicon.lexeme r.rest).2.length
    rw [List.append_assoc, hprefix, hline]
  · rw [Text.bytes_append, hoffset]
    rfl

/-- Reading a token leaves the reader standing in its line, pushed-back tokens or not. -/
theorem StandsIn.next (h : r.StandsIn line) : r.next.2.StandsIn line := by
  unfold Reader.next
  split
  · exact h
  · exact h.scan

end Reader

namespace Checked

variable {line : List Char} {r : Reader}

/-- A zero-width token is made without a panic at any offset below 2³². -/
theorem zeroWidth_eq (kind : TokenKind) (h : r.offset < 2 ^ 32) :
    zeroWidth kind r = .ok (⟨kind, "", ⟨r.offset, 0⟩⟩, r) := by
  have hrange : range r.offset (r.offset + 0) = .ok ⟨r.offset, 0⟩ := range_add h
  rw [Nat.add_zero] at hrange
  rw [zeroWidth, hrange]
  rfl

/-- A token of a scanned piece is made without a panic when the piece ends below 2³². -/
theorem piece_eq (kind : TokenKind) {taken : List Char} (after : List Char)
    (h : r.offset + Text.bytes taken < 2 ^ 32) :
    piece kind (Text.bytes taken) (taken ++ after) r =
      .ok (⟨Lexicon.promote kind taken after, String.ofList taken, ⟨r.offset, Text.bytes taken⟩⟩,
        { r with rest := after, offset := r.offset + Text.bytes taken }) := by
  rw [piece, cutUpTo_append, cutFrom_eq_ok.2 ⟨taken, rfl, rfl⟩]
  show (range r.offset (r.offset + Text.bytes taken) >>= _) = _
  rw [range_add h]
  rfl

/-- **Checked scanning never breaks off**, and gives the token that is scanned without checks. -/
theorem scan_eq (hline : Text.bytes line < 2 ^ 32) (h : r.StandsIn line) :
    scan line r = .ok r.scan := by
  obtain ⟨before, rfl, hoffset⟩ := h
  have hbytes : r.offset + Text.bytes r.rest < 2 ^ 32 := by
    rwa [← hoffset, ← Text.bytes_append]
  have hoff : r.offset < 2 ^ 32 := by omega
  have hcut : cutFrom r.offset (before ++ r.rest) = .ok r.rest :=
    cutFrom_eq_ok.2 ⟨before, rfl, hoffset⟩
  rw [scan, hcut]
  show (if r.rest = [] then zeroWidth .eof r else _) = _
  by_cases hrest : r.rest = []
  · have hlexeme : Lexicon.lexeme r.rest = (.eof, []) := if_pos hrest
    rw [if_pos hrest, zeroWidth_eq .eof hoff, Reader.scan, hlexeme]
    rfl
  rw [if_neg hrest]
  cases hlongest : Lexicon.longest? r.rest Lexicon.rules with
  | none =>
    have hlexeme : Lexicon.lexeme r.rest = (.unknown, []) := by
      rw [Lexicon.lexeme, if_neg hrest, hlongest]
    rw [Reader.scan, hlexeme]
    exact zeroWidth_eq .unknown hoff
  | some best =>
    obtain ⟨kind, taken⟩ := best
    obtain ⟨p, -, hmatch⟩ := Lexicon.exists_mem_of_longest? hlongest
    obtain ⟨after, hafter⟩ := Lexicon.Pattern.match?_prefix hmatch
    dsimp only at hafter
    have hdrop : r.rest.drop taken.length = after := by rw [← hafter, List.drop_left]
    have hscan : r.scan =
        (⟨Lexicon.promote kind taken after, String.ofList taken, ⟨r.offset, Text.bytes taken⟩⟩,
          { r with rest := after, offset := r.offset + Text.bytes taken }) := by
      simp only [Reader.scan, Lexicon.lexeme, if_neg hrest, hlongest, hdrop]
    rw [← hafter, Text.bytes_append] at hbytes
    have hfits : r.offset + Text.bytes taken < 2 ^ 32 := by omega
    rw [hscan]
    show piece kind (Text.bytes taken) r.rest r = _
    rw [← hafter]
    exact piece_eq kind after hfits

/-- On a line shorter than 2³² bytes the checked reader gives the token and the reader `Reader.next`
gives. -/
theorem next_eq (hline : Text.bytes line < 2 ^ 32) (h : r.StandsIn line) :
    next line r = .ok r.next := by
  unfold next Reader.next
  cases r.pushed with
  | nil => exact scan_eq hline h
  | cons t ts => rfl

/-- On such a line the checked loop gives the tokens of `Reader.drain`, for every bound above the
size of the reader. -/
theorem drainWithin_eq (hline : Text.bytes line < 2 ^ 32) {bound : Nat} (hbound : r.size < bound)
    (h : r.StandsIn line) : drainWithin line bound r = .ok r.drain.1 := by
  induction bound generalizing r with
  | zero => exact absurd hbound (Nat.not_lt_zero _)
  | succ bound ih =>
    rw [drainWithin, next_eq hline h, Reader.drain_eq]
    show (if r.next.1.kind.isZeroWidth = true then .ok [r.next.1]
      else drainWithin line bound r.next.2 >>= fun ts => .ok (r.next.1 :: ts)) = _
    split
    · rfl
    · rename_i hwide
      have hlt := Reader.size_next_lt (Bool.not_eq_true _ ▸ hwide)
      rw [ih (by omega) h.next]
      rfl

/-- **Checked lexing never breaks off** in lines of less than `2 ^ 32` bytes. -/
theorem lex_eq {line : String} (hline : Text.bytes line.toList < 2 ^ 32) :
    lex line = .ok (BoolQuery.lex line) := by
  refine drainWithin_eq hline ?_ (Reader.standsIn_ofString line)
  show 0 + line.toList.length < line.toList.length + 1
  omega

end Checked
end BoolQuery
