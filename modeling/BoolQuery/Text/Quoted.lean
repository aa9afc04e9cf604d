/-
# Quoted text in listings

Listings show the text of a token between double quotes, on one line and with nothing invisible
in it:

| character | written |
| --- | --- |
| `"`, `\` | after a backslash |
| NUL, tab, line feed, carriage return | `\0`, `\t`, `\n`, `\r` |
| without a visible form, left out by displays, or drawn on the character before it | `\u` and the code point in braces, in hexadecimal |
| any other | itself |
-/

import BoolQuery.Unicode.Extending
import BoolQuery.Unicode.Ignorable
import BoolQuery.Unicode.Unprintable

namespace BoolQuery
namespace Text
namespace Quoted

/-- The character would not be seen, or not on its own. The printable part of ASCII needs no
look into the tables. -/
def isConcealed (c : Char) : Bool :=
  !(' ' ≤ c && c ≤ '~') &&
    (Unicode.extending.contains c || Unicode.ignorable.contains c || Unicode.unprintable.contains c)

/-- How one character is written. -/
def escape (c : Char) : List Char :=
  if c = '"' then ['\\', '"']
  else if c = '\\' then ['\\', '\\']
  else if c = '\x00' then ['\\', '0']
  else if c = '\t' then ['\\', 't']
  else if c = '\n' then ['\\', 'n']
  else if c = '\r' then ['\\', 'r']
  else if isConcealed c then '\\' :: 'u' :: '\x7b' :: Nat.toDigits 16 c.toNat ++ ['\x7d']
  else [c]

/-- The text between double quotes, each character as `escape` writes it. -/
def quote (s : String) : String :=
  String.ofList ('"' :: s.toList.flatMap escape ++ ['"'])

end Quoted
end Text
end BoolQuery
