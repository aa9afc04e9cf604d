/-
# Reading a line token by token

A reader stands at a place of a line. Tokens can be given back to it, and are then read again
before anything new, the one given back last first:

    tokens to come = pushed ++ tokens scanned from rest

Reading never fails. At the end of the line, and in front of a character that begins no token, it
gives the same token without width again and again.
-/

import BoolQuery.Lexicon

namespace BoolQuery

/-- A place in a line, with the tokens that were given back, first to be read first. -/
structure Reader where
  pushed : List Token
  /-- The part of the line that was not scanned yet. -/
  rest : List Char
  /-- The bytes of the line before `rest`. -/
  offset : Nat

namespace Reader

/-- The start of a line. -/
def ofString (line : String) : Reader := ⟨[], line.toList, 0⟩

/-- Scans one token from the rest of the line. -/
def scan (r : Reader) : Token × Reader :=
  let (kind, taken) := Lexicon.lexeme r.rest
  (⟨kind, String.ofList taken, ⟨r.offset, Text.bytes taken⟩⟩,
    { r with rest := r.rest.drop taken.length, offset := r.offset + Text.bytes taken })

/-- Reads one token: one that was given back if there is any, else a new one. -/
def next (r : Reader) : Token × Reader :=
  match r.pushed with
  | t :: ts => (t, { r with pushed := ts })
  | [] => r.scan

/-- Gives a token back, to be read next. -/
def push (t : Token) (r : Reader) : Reader := { r with pushed := t :: r.pushed }

/-- Gives tokens back that were read in this order, to be read again in this order. -/
def pushAll (ts : List Token) (r : Reader) : Reader := ts.foldr push r

/-- The part of the line that was not scanned yet. -/
def remainder (r : Reader) : String := String.ofList r.rest

/-- How many tokens were given back and not read again. -/
def pending (r : Reader) : Nat := r.pushed.length

/-- A bound on the number of tokens to come that have a width. -/
def size (r : Reader) : Nat := r.pushed.length + r.rest.length

theorem pushAll_eq (ts : List Token) (r : Reader) :
    r.pushAll ts = { r with pushed := ts ++ r.pushed } := by
  induction ts with
  | nil => rfl
  | cons t ts ih =>
    rw [pushAll, List.foldr_cons, ← pushAll, ih]
    rfl

/-- A token with a width brings the end of the line nearer. -/
theorem size_next_lt {r : Reader} (h : r.next.1.kind.isZeroWidth = false) :
    r.next.2.size < r.size := by
  unfold next at h ⊢
  split at h
  · rename_i t ts hp
    simp [size, hp]
  · rename_i hp
    have hs := Lexicon.lexeme_shrinks r.rest
    rcases hs with hs | hs | hs
    · simp [scan, hs, Kind.isZeroWidth] at h
    · simp [scan, hs, Kind.isZeroWidth] at h
    · simpa [scan, size] using hs

/-- Reads up to the first token without width, which comes last. -/
def drain (r : Reader) : List Token × Reader :=
  match _h : r.next with
  | (t, r') =>
    if _ht : t.kind.isZeroWidth then ([t], r')
    else
      let (ts, last) := r'.drain
      (t :: ts, last)
termination_by r.size
decreasing_by
  have hlt := size_next_lt (r := r) (by simpa [_h] using _ht)
  simpa [_h] using hlt

theorem drain_eq (r : Reader) :
    r.drain = if r.next.1.kind.isZeroWidth then ([r.next.1], r.next.2)
      else (r.next.1 :: r.next.2.drain.1, r.next.2.drain.2) := by
  rw [drain]
  split
  rename_i t r' h
  simp only [h, dite_eq_ite]

end Reader

/-- All tokens of a line, up to the first without width: `Eof` if the line was read to its end,
`Unknown` in front of a character that begins no token. -/
def lex (line : String) : List Token := (Reader.ofString line).drain.1

end BoolQuery
