/-
# Lengths and offsets in UTF-8 bytes

Offsets into a line count the bytes of its UTF-8 form, so that a character moves an offset by one
to four. Texts are lists of characters here; an offset may fall inside a character, and
`dropBytes?` tells.
-/

namespace BoolQuery
namespace Text

/-- The number of bytes that a text takes in UTF-8. -/
def bytes : List Char → Nat
  | [] => 0
  | c :: cs => c.utf8Size + bytes cs

@[simp] theorem bytes_nil : bytes [] = 0 := rfl

@[simp] theorem bytes_cons (c : Char) (cs : List Char) :
    bytes (c :: cs) = c.utf8Size + bytes cs := rfl

/-- Texts one after the other take their bytes together. -/
@[simp] theorem bytes_append (cs ds : List Char) : bytes (cs ++ ds) = bytes cs + bytes ds := by
  induction cs with
  | nil => simp
  | cons c cs ih => simp [ih, Nat.add_assoc]

/-- Only the empty text takes no bytes. -/
theorem bytes_eq_zero {cs : List Char} : bytes cs = 0 ↔ cs = [] := by
  cases cs with
  | nil => simp
  | cons c cs => have := c.utf8Size_pos; simp; omega

/-- What follows the first `n` bytes, if `n` is a character boundary of the text. -/
def dropBytes? (n : Nat) : List Char → Option (List Char)
  | [] => if n = 0 then some [] else none
  | c :: cs =>
    if n = 0 then some (c :: cs)
    else if c.utf8Size ≤ n then dropBytes? (n - c.utf8Size) cs
    else none

/-- The characters that start before byte `n`. -/
def startingBefore (n : Nat) : List Char → List Char
  | [] => []
  | c :: cs => if n = 0 then [] else c :: startingBefore (n - c.utf8Size) cs

/-- Behind the bytes of some characters stands what follows them. -/
theorem dropBytes?_append (cs ds : List Char) : dropBytes? (bytes cs) (cs ++ ds) = some ds := by
  induction cs with
  | nil => cases ds <;> simp [dropBytes?]
  | cons c cs ih => have := c.utf8Size_pos; simp [dropBytes?, ih]; omega

/-- A character boundary has the bytes of some characters in front of it. -/
theorem exists_of_dropBytes? {offset : Nat} {cs rest : List Char}
    (h : dropBytes? offset cs = some rest) :
    ∃ before, cs = before ++ rest ∧ bytes before = offset := by
  induction cs generalizing offset with
  | nil =>
    unfold dropBytes? at h
    split at h
    · rename_i hzero
      cases h
      exact ⟨[], rfl, hzero.symm⟩
    · cases h
  | cons c cs ih =>
    unfold dropBytes? at h
    split at h
    · rename_i hzero
      cases h
      exact ⟨[], rfl, hzero.symm⟩
    · split at h
      · rename_i hle
        obtain ⟨before, rfl, hbytes⟩ := ih h
        refine ⟨c :: before, rfl, ?_⟩
        rw [bytes_cons, hbytes]
        omega
      · cases h

end Text
end BoolQuery
