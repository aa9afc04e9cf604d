/-
# JSON decoded

A decoder for all of JSON. It reads from left to right, and each part of it answers with what it
read and the characters behind that:

| part | read |
| --- | --- |
| value | an array, an object, a string, one of the three words, or a number; blanks in front of it are skipped |
| array, object | values, or names with a colon and a value, with commas between them, up to the closing bracket |
| string | characters up to the closing double quote, each as it is or as an escape; controls must be escaped |
| `\u` | a code unit of four hexadecimal digits; the two units of a pair of surrogates are one character |
| number | digits without needless zeros in front, and perhaps a minus, a fraction and an exponent |

What `Json.quote` writes for a text is read as that text and the digits of a number as that number,
wherever they stand in arrays and objects. `Spells` says so of a text and a value, and is put
together as the text is.
-/

import BoolQuery.Proofs.Lexing.Seams
import BoolQuery.Proofs.Listings.ReadBack
import BoolQuery.Text.Json
import Mathlib.Tactic.SplitIfs

namespace BoolQuery
namespace Text
namespace Json

/-- A value of JSON. -/
inductive Value
  | null
  | bool (b : Bool)
  /-- The number `mantissa * 10 ^ exponent`. -/
  | number (mantissa exponent : Int)
  | string (s : String)
  | array (items : List Value)
  | object (members : List (String × Value))

/-! ### Reading strings -/

/-- A character that may stand around values and signs. -/
def isSpacing (c : Char) : Bool := c == ' ' || c == '\t' || c == '\n' || c == '\r'

/-- The text from its first character on that is no blank. -/
def skipSpacing (cs : List Char) : List Char := cs.dropWhile isSpacing

/-- What a hexadecimal digit counts for, in either case. -/
def hexValue? (c : Char) : Option Nat :=
  if '0' ≤ c ∧ c ≤ '9' then some (c.toNat - '0'.toNat)
  else if 'a' ≤ c ∧ c ≤ 'f' then some (c.toNat - 'a'.toNat + 10)
  else if 'A' ≤ c ∧ c ≤ 'F' then some (c.toNat - 'A'.toNat + 10)
  else none

/-- Reads a code unit of four hexadecimal digits. -/
def unit? : List Char → Option (Nat × List Char)
  | a :: b :: c :: d :: cs => do
    let digits ← [a, b, c, d].mapM hexValue?
    some (digits.foldl (fun n digit => 16 * n + digit) 0, cs)
  | _ => none

/-- Reads what stands behind `\u`: a code unit, with a second one if the first is one half of a pair
of surrogates. A half alone is no character. -/
def codePoint? (cs : List Char) : Option (Char × List Char) := do
  let (high, cs) ← unit? cs
  if high < 0xd800 ∨ 0xe000 ≤ high then some (Char.ofNat high, cs)
  else match cs with
    | '\\' :: 'u' :: cs => do
      let (low, cs) ← unit? cs
      if high < 0xdc00 ∧ 0xdc00 ≤ low ∧ low < 0xe000 then
        some (Char.ofNat (0x10000 + 0x400 * (high - 0xd800) + (low - 0xdc00)), cs)
      else none
    | _ => none

/-- The characters with an escape of two characters, and what stands behind the backslash. -/
def named : List (Char × Char) :=
  [('"', '"'), ('\\', '\\'), ('/', '/'), ('\x08', 'b'), ('\x0c', 'f'), ('\n', 'n'), ('\r', 'r'),
    ('\t', 't')]

/-- Reads what stands behind a backslash. -/
def escaped? : List Char → Option (Char × List Char)
  | [] => none
  | c :: cs =>
    if c = 'u' then codePoint? cs else (named.find? fun e => e.2 == c).map fun e => (e.1, cs)

/-- Reads one character of a string. -/
def character? : List Char → Option (Char × List Char)
  | [] => none
  | c :: cs =>
    if c = '\\' then escaped? cs
    else if c = '"' ∨ c.toNat < 0x20 then none
    else some (c, cs)

/-- Reads the characters of a string, fewer than `bound`, and its closing double quote. -/
def characters? : Nat → List Char → Option (List Char × List Char)
  | 0, _ => none
  | bound + 1, cs =>
    if cs.head? = some '"' then some ([], cs.tail)
    else do
      let (c, cs) ← character? cs
      let (s, cs) ← characters? bound cs
      some (c :: s, cs)

/-- Reads a string. -/
def string? : List Char → Option (String × List Char)
  | [] => none
  | c :: cs =>
    if c = '"' then (characters? cs.length cs).map fun r => (String.ofList r.1, r.2) else none

/-! ### Reading numbers -/

/-- Reads digits, at least one. -/
def digits? (cs : List Char) : Option (List Char × List Char) :=
  if cs.takeWhile Char.isDigit = [] then none
  else some (cs.takeWhile Char.isDigit, cs.dropWhile Char.isDigit)

/-- Reads the digits of a fraction, if there is one. -/
def fraction? (cs : List Char) : Option (List Char × List Char) :=
  if cs.head? = some '.' then digits? cs.tail else some ([], cs)

/-- Reads an exponent, if there is one. -/
def exponent? (cs : List Char) : Option (Int × List Char) :=
  if cs.head? = some 'e' ∨ cs.head? = some 'E' then
    match cs.tail with
    | '-' :: cs => (digits? cs).map fun r => (-(Nat.ofDigitChars 10 r.1 0 : Int), r.2)
    | '+' :: cs => (digits? cs).map fun r => ((Nat.ofDigitChars 10 r.1 0 : Int), r.2)
    | cs => (digits? cs).map fun r => ((Nat.ofDigitChars 10 r.1 0 : Int), r.2)
  else some (0, cs)

/-- Reads a number. -/
def number? (cs : List Char) : Option (Value × List Char) := do
  let sign : Int := if cs.head? = some '-' then -1 else 1
  let (whole, cs) ← digits? (if cs.head? = some '-' then cs.tail else cs)
  if whole.head? = some '0' ∧ whole ≠ ['0'] then none
  else
    let (fraction, cs) ← fraction? cs
    let (power, cs) ← exponent? cs
    some (.number (sign * Nat.ofDigitChars 10 (whole ++ fraction) 0) (power - fraction.length), cs)

/-! ### Reading values -/

section

variable {α : Type}

/-- Reads items with commas between them, at most `bound`, and the closing bracket behind them. -/
def items? (item : List Char → Option (α × List Char)) (close : Char) :
    Nat → List Char → Option (List α × List Char)
  | 0, _ => none
  | bound + 1, cs => do
    let (x, cs) ← item cs
    match skipSpacing cs with
    | [] => none
    | c :: cs =>
      if c = close then some ([x], cs)
      else if c = ',' then do
        let (xs, cs) ← items? item close bound cs
        some (x :: xs, cs)
      else none

/-- Reads what stands behind an opening bracket, if anything, and the closing bracket. -/
def list? (item : List Char → Option (α × List Char)) (close : Char) (cs : List Char) :
    Option (List α × List Char) :=
  match skipSpacing cs with
  | [] => none
  | c :: rest => if c = close then some ([], rest) else items? item close cs.length (c :: rest)

/-- Reads a name, a colon and what is named. -/
def member? (item : List Char → Option (α × List Char)) (cs : List Char) :
    Option ((String × α) × List Char) := do
  let (name, cs) ← string? (skipSpacing cs)
  match skipSpacing cs with
  | [] => none
  | c :: cs =>
    if c = ':' then (item cs).map fun r => ((name, r.1), r.2) else none

end

/-- The values that are written as words. -/
def words : List (List Char × Value) :=
  [("null".toList, .null), ("true".toList, .bool true), ("false".toList, .bool false)]

/-- Reads a value in which fewer than `depth` arrays and objects stand within one another. -/
def value? : Nat → List Char → Option (Value × List Char)
  | 0, _ => none
  | depth + 1, cs =>
    match skipSpacing cs with
    | [] => none
    | c :: cs =>
      if c = '[' then (list? (value? depth) ']' cs).map fun r => (.array r.1, r.2)
      else if c = '\x7b' then
        (list? (member? (value? depth)) '\x7d' cs).map fun r => (.object r.1, r.2)
      else if c = '"' then (string? (c :: cs)).map fun r => (.string r.1, r.2)
      else match words.find? fun w => w.1.isPrefixOf (c :: cs) with
        | some w => some (w.2, (c :: cs).drop w.1.length)
        | none => number? (c :: cs)

/-- The value that a text stands for. It is nested less deeply than the text is long. -/
def decode (text : String) : Option Value := do
  let (v, rest) ← value? (text.length + 1) text.toList
  if skipSpacing rest = [] then some v else none

/-! ### Strings are read back -/

theorem hexValue?_digitChar : ∀ d < 16, hexValue? (Nat.digitChar d) = some d := by
  decide

/-- **What is written for a character is read as that character.** -/
theorem character?_escape (c : Char) (cs : List Char) :
    character? (escape c ++ cs) = some (c, cs) := by
  by_cases hshort : c ∈ ['"', '\\', '\x08', '\t', '\n', '\x0c', '\r']
  · simp only [List.mem_cons, List.not_mem_nil, or_false] at hshort
    rcases hshort with rfl | rfl | rfl | rfl | rfl | rfl | rfl <;> rfl
  · simp only [List.mem_cons, List.not_mem_nil, or_false, not_or] at hshort
    simp only [escape, hshort, if_false]
    split
    · rename_i hcontrol
      have hhigh := hexValue?_digitChar (c.toNat / 16) (by omega)
      have hlow := hexValue?_digitChar (c.toNat % 16) (by omega)
      have hunit : unit? ('0' :: '0' :: Nat.digitChar (c.toNat / 16) ::
          Nat.digitChar (c.toNat % 16) :: cs) = some (c.toNat, cs) := by
        have hzero : hexValue? '0' = some 0 := rfl
        simp [unit?, hzero, hhigh, hlow, Nat.div_add_mod]
      have hbelow : c.toNat < 0xd800 := by omega
      simp [character?, escaped?, codePoint?, hunit, hbelow, Char.ofNat_toNat]
    · rename_i hvisible
      simp [character?, hshort, hvisible]

theorem head?_escape_ne (c : Char) (cs : List Char) : (escape c ++ cs).head? ≠ some '"' := by
  unfold escape
  split_ifs with hquote <;> simp
  exact hquote

theorem length_escape_pos (c : Char) : 0 < (escape c).length := by
  unfold escape
  split_ifs <;> simp

theorem characters?_escape {s cs : List Char} {bound : Nat}
    (hbound : (s.flatMap escape).length < bound) :
    characters? bound (s.flatMap escape ++ '"' :: cs) = some (s, cs) := by
  induction s generalizing bound with
  | nil =>
    obtain _ | bound := bound
    · cases hbound
    · simp [characters?]
  | cons c s ih =>
    obtain _ | bound := bound
    · cases hbound
    · have hpos := length_escape_pos c
      rw [List.flatMap_cons, List.length_append] at hbound
      rw [List.flatMap_cons, List.append_assoc, characters?, if_neg (head?_escape_ne c _),
        character?_escape]
      have hrest := @ih bound (by omega)
      simp [hrest]

/-- **A string is read back**, whatever stands behind it. -/
theorem string?_quote (s : String) (cs : List Char) :
    string? ((quote s).toList ++ cs) = some (s, cs) := by
  have htext : (quote s).toList ++ cs = '"' :: (s.toList.flatMap escape ++ '"' :: cs) := by
    simp [quote]
  rw [htext, string?, if_pos rfl, characters?_escape (by simp)]
  simp

/-! ### Numbers are read back -/

/-- The signs that end an array or an object. -/
def closing : List Char := [']', '\x7d']

/-- Nothing stands behind a value, or one of the signs that do in arrays and objects. -/
def Delimited (cs : List Char) : Prop := ∀ c ∈ cs.head?, c ∈ ',' :: closing

theorem head?_toDigits_zero : ∀ d < 10, [Nat.digitChar d].head? = some '0' → d = 0 := by
  decide

/-- The digits of a number begin with a zero only if it is all there is. -/
theorem toDigits_eq_zero (n : Nat) (h : (Nat.toDigits 10 n).head? = some '0') :
    Nat.toDigits 10 n = ['0'] := by
  suffices n = 0 by rw [this]; rfl
  induction n using Nat.strongRecOn with
  | ind n ih =>
    rw [Nat.toDigits_eq_if (by decide)] at h
    split at h
    · rename_i hn
      exact head?_toDigits_zero n hn h
    · rename_i hn
      rw [List.head?_append_of_ne_nil _ Nat.toDigits_ne_nil] at h
      have hzero := ih (n / 10) (by omega) h
      omega

theorem digits?_append {ds cs : List Char} (hne : ds ≠ []) (hds : ∀ c ∈ ds, c.isDigit = true)
    (hcs : ∀ c ∈ cs.head?, c.isDigit = false) : digits? (ds ++ cs) = some (ds, cs) := by
  have htake := Lexicon.takeWhile_append_eq_left.2 ⟨hds, hcs⟩
  rw [digits?, htake, dropWhile_append_eq_right htake, if_neg hne]

theorem ne_of_isDigit {c d : Char} (hc : c.isDigit = true) (hd : d.isDigit = false) : c ≠ d := by
  rintro rfl
  rw [hc] at hd
  cases hd

/-- **A number is read back** if its end can be told. -/
theorem number?_toString (n : Nat) {cs : List Char} (hcs : Delimited cs) :
    number? ((toString n).toList ++ cs) = some (.number n 0, cs) := by
  have hdigits : ∀ c ∈ (toString n).toList, c.isDigit = true := fun c => isDigit_of_mem_toString
  have hbehind : ∀ c ∈ cs.head?, c.isDigit = false ∧ c ∉ ['.', 'e', 'E'] := by
    intro c hc
    have hc := hcs c hc
    simp only [closing, List.mem_cons, List.not_mem_nil, or_false] at hc
    rcases hc with rfl | rfl | rfl <;> decide
  have hread := digits?_append (toString_ne_nil n) hdigits fun c hc => (hbehind c hc).1
  have hminus : ((toString n).toList ++ cs).head? ≠ some '-' := by
    rw [List.head?_append_of_ne_nil _ (toString_ne_nil n)]
    exact fun h => ne_of_isDigit (hdigits _ (List.mem_of_head? h)) rfl rfl
  have hplain : ¬((toString n).toList.head? = some '0' ∧ (toString n).toList ≠ ['0']) := by
    rw [Nat.toString_eq_repr, Nat.toList_repr]
    exact fun h => h.2 (toDigits_eq_zero n h.1)
  have hfraction : fraction? cs = some ([], cs) :=
    if_neg fun h => (hbehind _ h).2 (by decide)
  have hexponent : exponent? cs = some (0, cs) :=
    if_neg fun h => h.elim (fun h => (hbehind _ h).2 (by decide)) fun h =>
      (hbehind _ h).2 (by decide)
  have hvalue : Nat.ofDigitChars 10 (toString n).toList 0 = n := by
    rw [Nat.toString_eq_repr, Nat.toList_repr, Nat.ofDigitChars_toDigits (by decide) (by decide)]
  simp only [number?, if_neg hminus, hread, Option.bind_eq_bind, Option.bind_some, if_neg hplain,
    hfraction, hexponent, List.append_nil, hvalue]
  simp

/-! ### Values are read back -/

/-- The characters are read as `x` in front of all that may stand behind a value. They do not begin
with what is skipped, nor with the end of an array or an object. -/
structure Reads {α : Type} (item : List Char → Option (α × List Char)) (cs : List Char) (x : α) :
    Prop where
  begun : ∃ c rest, cs = c :: rest ∧ isSpacing c = false ∧ c ∉ closing
  read : ∀ after, Delimited after → item (cs ++ after) = some (x, after)

theorem delimited_cons {c : Char} (hc : c ∈ ',' :: closing) (cs : List Char) :
    Delimited (c :: cs) := by
  rintro d ⟨⟩
  exact hc

theorem closing_plain : ∀ c ∈ closing, isSpacing c = false ∧ ',' ≠ c := by
  simp [closing, isSpacing]

theorem skipSpacing_cons {c : Char} (hc : isSpacing c = false) (cs : List Char) :
    skipSpacing (c :: cs) = c :: cs := by
  simp [skipSpacing, hc]

section

variable {α β : Type} {item : List Char → Option (α × List Char)} {x : α} {cs : List Char}

/-- A name and a colon may stand in front of what is read. -/
theorem Reads.member (h : Reads item cs x) (name : String) :
    Reads (member? item) ((quote name).toList ++ ':' :: cs) (name, x) where
  begun := ⟨'"', name.toList.flatMap escape ++ '"' :: ':' :: cs, by simp [quote], rfl, by decide⟩
  read after hafter := by
    have hquoted : skipSpacing ((quote name).toList ++ (':' :: cs ++ after)) =
        (quote name).toList ++ (':' :: cs ++ after) := by
      simp [quote, skipSpacing_cons (c := '"') rfl]
    rw [List.append_assoc, member?, hquoted, string?_quote]
    simp [skipSpacing_cons (c := ':') rfl, h.read after hafter]

variable {close : Char} {written : β → List Char} {meant : β → α} {xs : List β}
  (after : List Char)

/-- Items with commas between them are read one after the other. -/
theorem items?_intercalate {bound : Nat} (hclose : close ∈ closing)
    (hxs : ∀ x ∈ xs, Reads item (written x) (meant x)) (hne : xs ≠ [])
    (hbound : (List.intercalate [','] (xs.map written)).length < bound) :
    items? item close bound (List.intercalate [','] (xs.map written) ++ close :: after) =
      some (xs.map meant, after) := by
  obtain ⟨hspacing, hcomma⟩ := closing_plain close hclose
  induction xs generalizing bound with
  | nil => exact absurd rfl hne
  | cons x xs ih =>
    obtain ⟨hx, hxs⟩ := List.forall_mem_cons.1 hxs
    obtain _ | bound := bound
    · cases hbound
    · cases xs with
      | nil =>
        have hend := delimited_cons (List.mem_cons_of_mem ',' hclose) after
        simp [items?, hx.read _ hend, skipSpacing_cons hspacing]
      | cons y ys =>
        have htext : List.intercalate [','] ((x :: y :: ys).map written) =
            written x ++ ',' :: List.intercalate [','] ((y :: ys).map written) := by
          simp [List.intercalate]
        rw [htext, List.length_append, List.length_cons] at hbound
        have hrest := @ih bound hxs (List.cons_ne_nil y ys) (by omega)
        rw [List.map_cons, List.map_cons] at hrest
        rw [htext, List.append_assoc, List.cons_append, items?,
          hx.read _ (delimited_cons (List.mem_cons_self ..) _)]
        simp [skipSpacing_cons (c := ',') rfl, hcomma, hrest]

/-- A list is read up to its closing bracket. -/
theorem list?_intercalate (hclose : close ∈ closing)
    (hxs : ∀ x ∈ xs, Reads item (written x) (meant x)) :
    list? item close (List.intercalate [','] (xs.map written) ++ close :: after) =
      some (xs.map meant, after) := by
  cases xs with
  | nil => simp [list?, skipSpacing_cons (closing_plain close hclose).1, List.intercalate]
  | cons x xs =>
    obtain ⟨c, rest, hx, hspacing, hopen⟩ := (hxs x (List.mem_cons_self ..)).begun
    have hbegin : ∃ behind, List.intercalate [','] ((x :: xs).map written) = c :: behind := by
      cases xs <;> simp [List.intercalate, hx]
    obtain ⟨behind, hbehind⟩ := hbegin
    have hne : c ≠ close := by
      rintro rfl
      exact hopen hclose
    have hread : items? item close (c :: behind ++ close :: after).length
        (List.intercalate [','] ((x :: xs).map written) ++ close :: after) =
          some ((x :: xs).map meant, after) :=
      items?_intercalate after hclose hxs (List.cons_ne_nil x xs) (by rw [hbehind]; simp)
    rw [hbehind, List.cons_append] at hread
    rw [hbehind, List.cons_append, list?, skipSpacing_cons hspacing]
    simp only [if_neg hne, hread]

end

/-- The characters are read as the value if more than `depth` arrays and objects may stand within
one another. -/
def Spells (depth : Nat) (cs : List Char) (v : Value) : Prop :=
  ∀ d, depth < d → Reads (value? d) cs v

namespace Spells

variable {depth : Nat}

theorem of_succ {cs : List Char} {v : Value} (h : ∀ d, depth ≤ d → Reads (value? (d + 1)) cs v) :
    Spells depth cs v := by
  intro d hd
  obtain _ | d := d
  · cases hd
  · exact h d (Nat.le_of_lt_succ hd)

/-- A string spells its text. -/
theorem quote (s : String) : Spells 0 (Json.quote s).toList (.string s) := by
  refine .of_succ fun d _ => ?_
  have htext : (Json.quote s).toList = '"' :: (s.toList.flatMap escape ++ ['"']) := by
    simp [Json.quote]
  refine ⟨⟨_, _, htext, rfl, by decide⟩, fun after _ => ?_⟩
  have hread := string?_quote s after
  rw [htext, List.cons_append] at hread ⊢
  rw [value?, skipSpacing_cons rfl]
  simp only [hread, if_neg (show '"' ≠ '[' by decide), if_neg (show '"' ≠ '\x7b' by decide),
    if_true, Option.map_some]

/-- Digits spell their number. -/
theorem toString (n : Nat) : Spells 0 (ToString.toString n).toList (.number n 0) := by
  refine .of_succ fun d _ => ?_
  obtain ⟨c, rest, htext⟩ := List.exists_cons_of_ne_nil (toString_ne_nil n)
  have hc : c.isDigit = true := isDigit_of_mem_toString (n := n) (by rw [htext]; simp)
  have hne : ∀ e ∈ [' ', '\t', '\n', '\r', '[', '\x7b', '"', 'n', 't', 'f'] ++ closing, c ≠ e :=
    fun e he => ne_of_isDigit hc (by revert e; simp [closing, Char.isDigit])
  simp only [List.forall_mem_append, List.forall_mem_cons] at hne
  have hspacing : isSpacing c = false := by simp [isSpacing, hne]
  refine ⟨⟨c, rest, htext, hspacing, fun h => hne.2 c h rfl⟩, fun after hafter => ?_⟩
  have hread := number?_toString n hafter
  rw [htext, List.cons_append] at hread ⊢
  have hwords : words.find? (fun w => w.1.isPrefixOf (c :: (rest ++ after))) = none := by
    simp [words, List.isPrefixOf, Ne.symm, hne]
  rw [value?, skipSpacing_cons hspacing]
  simp only [hwords, hread, hne, if_false]

/-- Values with commas between them spell an array. -/
theorem array {β : Type} {written : β → List Char} {meant : β → Value} {xs : List β}
    (hxs : ∀ x ∈ xs, Spells depth (written x) (meant x)) :
    Spells (depth + 1) ('[' :: List.intercalate [','] (xs.map written) ++ [']'])
      (.array (xs.map meant)) := by
  refine .of_succ fun d hd => ⟨⟨'[', _, rfl, rfl, by decide⟩, fun after _ => ?_⟩
  have hread := list?_intercalate after (show ']' ∈ closing by decide) fun x hx => hxs x hx d hd
  simp [value?, skipSpacing_cons (c := '[') rfl, hread]

/-- Values with names in front and commas between them spell an object. -/
theorem object {ms : List (String × List Char × Value)}
    (hms : ∀ m ∈ ms, Spells depth m.2.1 m.2.2) :
    Spells (depth + 1)
      ('\x7b' :: List.intercalate [','] (ms.map fun m => (Json.quote m.1).toList ++ ':' :: m.2.1) ++
        ['\x7d'])
      (.object (ms.map fun m => (m.1, m.2.2))) := by
  refine .of_succ fun d hd => ⟨⟨'\x7b', _, rfl, rfl, by decide⟩, fun after _ => ?_⟩
  have hread := list?_intercalate after (show '\x7d' ∈ closing by decide) fun m hm =>
    (hms m hm d hd).member m.1
  simp [value?, skipSpacing_cons (c := '\x7b') rfl, hread]

/-- **A text that spells a value is decoded to it.** -/
theorem decode {text : String} {v : Value} (h : Spells depth text.toList v)
    (hdepth : depth ≤ text.length) : decode text = some v := by
  have hread := (h (text.length + 1) (by omega)).read [] nofun
  rw [List.append_nil] at hread
  have hnone : skipSpacing [] = [] := rfl
  rw [Json.decode, hread]
  simp only [Option.bind_eq_bind, Option.bind_some, hnone, if_true]

end Spells

/-- Blanks, escapes, pairs of surrogates, fractions and exponents are read as well. -/
example : decode " \x7b \"a\\ud83d\\ude00\\/\" : [ -1.50e2, true,\n[] , 0 ] \x7d " =
    some (.object [("a😀/", .array [.number (-150) 0, .bool true, .array [], .number 0 0])]) := by
  rfl

end Json
end Text
end BoolQuery
