/-
# Columns of a fixed-width display

| characters | columns |
| --- | ---: |
| drawn on the character before them, left out by displays, or joined into a Hangul syllable | 0 |
| joined to the character after them | 0 |
| wide and fullwidth ones, and the Khmer vowel U+17A4 | 2 |
| the Khmer sign U+17D8, which stands for a whole word | 3 |
| all others | 1 |

Two characters fill cells although displays may draw them as marks or leave them out: the consonant
joiner U+2D7F of Tifinagh one, and the filler U+115F for the first consonant of a Hangul syllable
two. Of the places that Unicode 17 leaves unassigned, displays know some by what they are reserved
for: they fill no cell or two, the others one.
-/

import BoolQuery.Unicode.Extending
import BoolQuery.Unicode.Ignorable
import BoolQuery.Unicode.Wide

namespace BoolQuery
namespace Unicode

/-- The vowels and final consonants that Hangul syllables are composed of. -/
def hangulJoining : CharSet where
  ranges := [(0x1160, 0x11FF), (0xD7B0, 0xD7C6), (0xD7CB, 0xD7FB)]

/-- Signs that are drawn on what follows them: consonants and numeric signs written in front, and
the caret of Devanagari. -/
def leading : CharSet where
  ranges :=
    [(0x605, 0x605), (0x70F, 0x70F), (0x890, 0x891), (0x8E2, 0x8E2), (0xD4E, 0xD4E),
    (0xA8FA, 0xA8FA), (0x111C2, 0x111C3), (0x113D1, 0x113D1), (0x1193F, 0x1193F),
    (0x11941, 0x11941), (0x11A3A, 0x11A3A), (0x11A84, 0x11A89), (0x11D46, 0x11D46),
    (0x11F02, 0x11F02)]

/-- Places reserved for marks: Hebrew points and the first of more signs of music. -/
def reservedMarks : CharSet where
  ranges := [(0x5C8, 0x5C9), (0x1D250, 0x1D250)]

/-- Places reserved for wide characters: Jurchen and its radicals, kana, and an enclosed sign. -/
def reservedWide : CharSet where
  ranges := [(0x18E00, 0x191DF), (0x1B123, 0x1B12F), (0x1F1AE, 0x1F1AE)]

/-- A character that takes no column of its own. -/
def isWidthless (c : Char) : Bool :=
  c ≠ '\u2d7f' && c ≠ '\u115f' &&
    (extending.contains c || ignorable.contains c || hangulJoining.contains c ||
      leading.contains c || reservedMarks.contains c)

/-- A character that takes two columns, unless it takes none. -/
def isWide (c : Char) : Bool :=
  c = '\u17a4' || wide.contains c || reservedWide.contains c

/-- The number of columns that a character fills. The printable part of ASCII needs no look into
the tables. -/
def columns (c : Char) : Nat :=
  if ' ' ≤ c ∧ c ≤ '~' then 1
  else if c = '\u17d8' then 3
  else if isWidthless c then 0
  else if isWide c then 2
  else 1

end Unicode
end BoolQuery
