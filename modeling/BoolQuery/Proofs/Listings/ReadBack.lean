/-
# Lines and quoted texts read back

A listing is made of lines, and shows texts in double quotes. Both can be undone. Lines that hold no
line feed and do not end with a carriage return are found again where a listing is split, and what
`Quoted.escape` writes for a character is read off a text from left to right:

| read so far | then comes | read |
| --- | --- | --- |
| nothing of a character | a double quote, and nothing more | the end of the text |
| | a backslash | the beginning of an escape |
| | any other character | itself |
| a backslash | one of `"`, `\`, `0`, `t`, `n`, `r` | the character that it names |
| | `u` and an opening brace | the beginning of a code point |
| a code point | a hexadecimal digit | one more digit of it |
| | a closing brace | the character with the code point |

Which characters are written as code points is of no matter, as long as it is told by the character.
-/

import BoolQuery.Text.Lines
import BoolQuery.Text.Quoted
import Mathlib.Data.List.Basic

namespace BoolQuery
namespace Text

/-! ### Lines -/

section

variable {sep : Char}

/-- The first separator ends the first piece. -/
theorem pieces_append {l : List Char} (hl : sep ∉ l) (cs : List Char) :
    pieces sep (l ++ sep :: cs) = l :: pieces sep cs := by
  induction l with
  | nil => simp [pieces]
  | cons c l ih =>
    rw [List.mem_cons, not_or] at hl
    simp [pieces, ih hl.2, Ne.symm hl.1]

/-- Texts without the separator, each ended by one, are cut apart again, with an empty piece behind
them. -/
theorem pieces_flatMap {ls : List (List Char)} (hls : ∀ l ∈ ls, sep ∉ l) :
    pieces sep (ls.flatMap (· ++ [sep])) = ls ++ [[]] := by
  induction ls with
  | nil => rfl
  | cons l ls ih =>
    rw [List.forall_mem_cons] at hls
    rw [List.flatMap_cons, List.append_assoc, List.singleton_append, pieces_append hls.1, ih hls.2,
      List.cons_append]

end

/-- No character of the text would end a line. -/
def Unbroken (s : String) : Prop := '\n' ∉ s.toList ∧ '\r' ∉ s.toList

instance (s : String) : Decidable (Unbroken s) := inferInstanceAs (Decidable (_ ∧ _))

/-- Unbroken texts one after the other are unbroken. -/
theorem Unbroken.append {s t : String} (hs : Unbroken s) (ht : Unbroken t) : Unbroken (s ++ t) := by
  simp only [Unbroken, String.toList_append, List.mem_append, not_or]
  exact ⟨⟨hs.1, ht.1⟩, hs.2, ht.2⟩

/-- A text without a carriage return loses none. -/
theorem dropReturn_of_not_mem {l : List Char} (hl : '\r' ∉ l) : dropReturn l = l := by
  rw [dropReturn, if_neg]
  exact fun hlast => hl (List.mem_of_getLast? hlast)

/-- Lines without a line feed, each ended by one, are cut apart again, with an empty piece behind
them. -/
theorem pieces_join {ls : List String} (hls : ∀ l ∈ ls, '\n' ∉ l.toList) :
    pieces '\n' (String.join (ls.map (· ++ "\n"))).toList = ls.map String.toList ++ [[]] := by
  have htext : (String.join (ls.map (· ++ "\n"))).toList =
      (ls.map String.toList).flatMap (· ++ ['\n']) := by
    simp [String.toList_join, List.flatMap_map]
  rw [htext, pieces_flatMap]
  exact List.forall_mem_map.2 hls

/-- **Lines that are ended by line feeds are found again** in the text that they make. -/
theorem lines_join {ls : List String} (hls : ∀ l ∈ ls, Unbroken l) :
    LineRule.stream.lines (String.join (ls.map (· ++ "\n"))) = ls := by
  have hpieces := pieces_join fun l hl => (hls l hl).1
  have hsame : ∀ l ∈ ls, String.ofList (dropReturn l.toList) = l := by
    intro l hl
    rw [dropReturn_of_not_mem (hls l hl).2, String.ofList_toList]
  simp only [LineRule.lines, LineRule.split, hpieces, List.dropLast_concat, List.map_map,
    List.getLast?_concat]
  simpa [Function.comp_def] using List.map_congr_left (g := id) hsame

/-! ### Beginnings and digits -/

/-- Behind a run that ends with the first text stands the second. -/
theorem dropWhile_append_eq_right {p : Char → Bool} {cs after : List Char}
    (h : (cs ++ after).takeWhile p = cs) : (cs ++ after).dropWhile p = after := by
  have hparts := List.takeWhile_append_dropWhile (p := p) (l := cs ++ after)
  rw [h] at hparts
  exact List.append_cancel_left hparts

/-- Numbers are written with digits only. -/
theorem isDigit_of_mem_toString {n : Nat} {c : Char} (hc : c ∈ (toString n).toList) :
    c.isDigit = true := by
  rw [Nat.toString_eq_repr, Nat.toList_repr] at hc
  exact Nat.isDigit_of_mem_toDigits (by decide) (by decide) hc

/-- A number is written with at least one digit. -/
theorem toString_ne_nil (n : Nat) : (toString n).toList ≠ [] := by
  rw [Nat.toString_eq_repr, Nat.toList_repr]
  exact Nat.toDigits_ne_nil

namespace Quoted

/-! ### Escapes -/

/-- The characters with an escape of their own, and what stands behind the backslash. -/
def named : List (Char × Char) :=
  [('"', '"'), ('\\', '\\'), ('\x00', '0'), ('\t', 't'), ('\n', 'n'), ('\r', 'r')]

/-- How one character is written, where `concealed` tells which ones are written as code points. -/
def escapeWith (concealed : Char → Bool) (c : Char) : List Char :=
  match named.find? fun e => e.1 == c with
  | some e => ['\\', e.2]
  | none =>
    if concealed c then '\\' :: 'u' :: '\x7b' :: Nat.toDigits 16 c.toNat ++ ['\x7d'] else [c]

/-- Quoting escapes with the concealed characters of its own. -/
theorem escape_eq (c : Char) : escape c = escapeWith isConcealed c := by
  by_cases hc : ∃ e ∈ named, e.1 = c
  · obtain ⟨e, he, rfl⟩ := hc
    simp only [named, List.mem_cons, List.not_mem_nil, or_false] at he
    rcases he with rfl | rfl | rfl | rfl | rfl | rfl <;> rfl
  · have hne : ∀ e ∈ named, c ≠ e.1 := fun e he h => hc ⟨e, he, h.symm⟩
    have hnone : named.find? (fun e => e.1 == c) = none := by
      rw [List.find?_eq_none]
      exact fun e he => by simpa using (hne e he).symm
    simp only [named, List.forall_mem_cons] at hne
    simp [escape, escapeWith, hnone, hne]

/-- How far the reading of one character has come. -/
inductive Progress
  /-- Nothing of it was read. -/
  | fresh
  /-- A backslash was read. -/
  | escaped
  /-- The beginning of a code point was read, but not its brace. -/
  | opening
  /-- Digits of a code point were read, which come to `n`. -/
  | digits (n : Nat)

/-- What a hexadecimal digit counts for. -/
def digitValue (c : Char) : Nat :=
  if c.isDigit then c.toNat - '0'.toNat else c.toNat - 'a'.toNat + 10

/-- The characters up to the closing double quote, which has to be the last one. -/
def unescape : Progress → List Char → Option (List Char)
  | _, [] => none
  | .fresh, c :: cs =>
    if c = '"' then (if cs = [] then some [] else none)
    else if c = '\\' then unescape .escaped cs
    else (unescape .fresh cs).map (c :: ·)
  | .escaped, c :: cs =>
    if c = 'u' then unescape .opening cs
    else do
      let e ← named.find? fun e => e.2 == c
      (unescape .fresh cs).map (e.1 :: ·)
  | .opening, c :: cs => if c = '\x7b' then unescape (.digits 0) cs else none
  | .digits n, c :: cs =>
    if c = '\x7d' then (unescape .fresh cs).map (Char.ofNat n :: ·)
    else unescape (.digits (16 * n + digitValue c)) cs

/-- The text that stands between the double quotes. -/
def unquote : List Char → Option String
  | [] => none
  | c :: cs => if c = '"' then (unescape .fresh cs).map String.ofList else none

/-- A hexadecimal digit is no closing brace and has its value. -/
theorem digitValue_digitChar : ∀ d < 16,
    Nat.digitChar d ≠ '\x7d' ∧ digitValue (Nat.digitChar d) = d := by
  decide

/-- The digits of a code point come to it. -/
theorem unescape_toDigits (n : Nat) (cs : List Char) :
    unescape (.digits 0) (Nat.toDigits 16 n ++ cs) = unescape (.digits n) cs := by
  induction n using Nat.strongRecOn generalizing cs with
  | ind n ih =>
    rw [Nat.toDigits_eq_if (by decide)]
    split
    · rename_i hn
      obtain ⟨hne, hvalue⟩ := digitValue_digitChar n hn
      simp [unescape, hne, hvalue]
    · rename_i hn
      obtain ⟨hne, hvalue⟩ := digitValue_digitChar (n % 16) (Nat.mod_lt n (by decide))
      rw [List.append_assoc, ih (n / 16) (by omega), List.singleton_append, unescape, if_neg hne,
        hvalue, Nat.div_add_mod]

/-- **What is written for a character is read as that character.** -/
theorem unescape_escapeWith (concealed : Char → Bool) (c : Char) (cs : List Char) :
    unescape .fresh (escapeWith concealed c ++ cs) = (unescape .fresh cs).map (c :: ·) := by
  unfold escapeWith
  split
  · rename_i e he
    obtain rfl : e.1 = c := by simpa using List.find?_some he
    have hmem := List.mem_of_find?_eq_some he
    simp only [named, List.mem_cons, List.not_mem_nil, or_false] at hmem
    rcases hmem with rfl | rfl | rfl | rfl | rfl | rfl <;> simp [unescape, named]
  · rename_i hnone
    have hc : c ≠ '"' ∧ c ≠ '\\' := by
      constructor <;> rintro rfl <;> simp [named] at hnone
    split
    · rw [List.append_assoc]
      simp [unescape, unescape_toDigits, Char.ofNat_toNat]
    · simp [unescape, hc]

/-- **A quoted text is read back**, whichever characters are written as code points. -/
theorem unquote_quoteWith (concealed : Char → Bool) (s : String) :
    unquote ('"' :: s.toList.flatMap (escapeWith concealed) ++ ['"']) = some s := by
  have hchars : ∀ cs : List Char,
      unescape .fresh (cs.flatMap (escapeWith concealed) ++ ['"']) = some cs := by
    intro cs
    induction cs with
    | nil => rfl
    | cons c cs ih =>
      rw [List.flatMap_cons, List.append_assoc, unescape_escapeWith, ih]
      rfl
  simp [unquote, hchars]

/-- A quoted text is read back. -/
theorem unquote_quote (s : String) : unquote (quote s).toList = some s := by
  have hescape : escape = escapeWith isConcealed := funext escape_eq
  rw [quote, String.toList_ofList, hescape]
  exact unquote_quoteWith isConcealed s

/-! ### Quoted texts stay on their line -/

/-- Numbers in hexadecimal are written with hexadecimal digits only. -/
theorem mem_toDigits {n : Nat} {c : Char} (hc : c ∈ Nat.toDigits 16 n) :
    ∃ d < 16, c = Nat.digitChar d := by
  induction n using Nat.strongRecOn with
  | ind n ih =>
    rw [Nat.toDigits_eq_if (by decide)] at hc
    split at hc
    · rename_i hn
      exact ⟨n, hn, List.mem_singleton.1 hc⟩
    · rename_i hn
      rcases List.mem_append.1 hc with hc | hc
      · exact ih (n / 16) (by omega) hc
      · exact ⟨n % 16, Nat.mod_lt n (by decide), List.mem_singleton.1 hc⟩

/-- A hexadecimal digit ends no line. -/
theorem digitChar_ne_break : ∀ d < 16, Nat.digitChar d ≠ '\n' ∧ Nat.digitChar d ≠ '\r' := by
  decide

/-- However a character is written, no line ends there. -/
theorem escapeWith_unbroken (concealed : Char → Bool) (c : Char) :
    ∀ d ∈ escapeWith concealed c, d ≠ '\n' ∧ d ≠ '\r' := by
  unfold escapeWith
  split
  · rename_i e he
    have hmem := List.mem_of_find?_eq_some he
    simp only [named, List.mem_cons, List.not_mem_nil, or_false] at hmem
    rcases hmem with rfl | rfl | rfl | rfl | rfl | rfl <;> simp
  · rename_i hnone
    split
    · simp only [List.cons_append, List.forall_mem_cons, List.forall_mem_append]
      refine ⟨by decide, by decide, by decide, fun d hd => ?_, by simp⟩
      obtain ⟨n, hn, rfl⟩ := mem_toDigits hd
      exact digitChar_ne_break n hn
    · rw [List.forall_mem_singleton]
      constructor <;> rintro rfl <;> simp [named] at hnone

/-- Whatever a text holds, it does not end the line that it is quoted on. -/
theorem unbroken_quote (s : String) : Unbroken (quote s) := by
  have hall : ∀ d ∈ (quote s).toList, d ≠ '\n' ∧ d ≠ '\r' := by
    rw [quote, String.toList_ofList]
    simp only [List.cons_append, List.forall_mem_cons, List.forall_mem_append,
      List.forall_mem_flatMap]
    refine ⟨by decide, fun c _ d hd => ?_, by simp⟩
    rw [escape_eq] at hd
    exact escapeWith_unbroken isConcealed c d hd
  exact ⟨fun h => (hall _ h).1 rfl, fun h => (hall _ h).2 rfl⟩

end Quoted
end Text
end BoolQuery
