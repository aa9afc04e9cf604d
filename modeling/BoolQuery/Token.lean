/-
# Tokens and where they stand

A token carries its kind, the text it took from the line, and the bytes of the line it covers.
-/

import BoolQuery.Kind
import BoolQuery.Text.Bytes

namespace BoolQuery

/-- A range of bytes of a line. Start and length, so that its end is never before its start. -/
structure Span where
  start : Nat
  length : Nat
  deriving DecidableEq, Repr

namespace Span

/-- The first byte after the range. -/
def stop (s : Span) : Nat := s.start + s.length

/-- The range between two offsets, if the second is not before the first. -/
def between? (start stop : Nat) : Option Span :=
  if start ≤ stop then some ⟨start, stop - start⟩ else none

/-- The smallest range that holds both. -/
def cover (a b : Span) : Span :=
  ⟨min a.start b.start, max a.stop b.stop - min a.start b.start⟩

/-- The range that holds both ends where the later one does. -/
@[simp] theorem stop_cover (a b : Span) : (cover a b).stop = max a.stop b.stop := by
  simp only [cover, stop]
  omega

end Span

/-- A piece of a line. -/
structure Token where
  kind : Kind
  text : String
  span : Span
  deriving DecidableEq, Repr

namespace Token

/-- The texts of the tokens, joined. -/
def joined (ts : List Token) : String :=
  String.ofList (ts.flatMap fun t => t.text.toList)

@[simp] theorem toList_joined (ts : List Token) :
    (joined ts).toList = ts.flatMap fun t => t.text.toList := String.toList_ofList

/-- The tokens that take something of the line. -/
def wide (ts : List Token) : List Token := ts.filter fun t => !t.kind.isZeroWidth

@[simp] theorem wide_nil : wide [] = [] := rfl

/-- Tokens with a width, in two parts. -/
@[simp] theorem wide_append (ts us : List Token) : wide (ts ++ us) = wide ts ++ wide us :=
  List.filter_append ..

end Token

end BoolQuery
