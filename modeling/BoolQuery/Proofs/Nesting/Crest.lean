/-
# The greatest excess of a list

A list whose elements may lead up or down reaches its greatest height after one of its prefixes.
Productions that are opened and closed make such a list, and so do parentheses: the crest of the
first is how many productions are open at once, that of the second how many groups.
-/

import Mathlib.Data.List.Infix

namespace BoolQuery

section

variable {α : Type} (up down : α → Bool)

/-- The greatest excess, over all prefixes of a list, of the elements that lead up over those that
lead down. -/
def crest (xs : List α) : Nat :=
  (xs.inits.map fun p => p.countP up - p.countP down).foldr max 0

variable {up down} {xs ys : List α}

/-- **The crest bounds every prefix**, and is the least number that does. -/
theorem crest_le_iff {n : Nat} :
    crest up down xs ≤ n ↔ ∀ p, p <+: xs → p.countP up ≤ p.countP down + n := by
  have hfold : ∀ l : List Nat, l.foldr max 0 ≤ n ↔ ∀ a ∈ l, a ≤ n := by
    intro l
    induction l with
    | nil => simp
    | cons a l ih => rw [List.foldr_cons, Nat.max_le, ih, List.forall_mem_cons]
  rw [crest, hfold, List.forall_mem_map]
  constructor
  · intro h p hp
    have := h p ((List.mem_inits p xs).2 hp)
    omega
  · intro h p hp
    have := h p ((List.mem_inits p xs).1 hp)
    omega

@[simp] theorem crest_nil : crest up down [] = 0 := rfl

/-- A first item lifts or lowers the crest of the others by one, but not below nothing. -/
theorem crest_cons (x : α) : crest up down (x :: xs) =
    crest up down xs + (if up x then 1 else 0) - (if down x then 1 else 0) := by
  apply Nat.le_antisymm
  · rw [crest_le_iff]
    intro p hp
    rcases List.prefix_cons_iff.1 hp with rfl | ⟨q, rfl, hq⟩
    · exact Nat.zero_le _
    · have hbound := crest_le_iff.1 (Nat.le_refl (crest up down xs)) q hq
      rw [List.countP_cons, List.countP_cons]
      omega
  · have hcons := crest_le_iff.1 (Nat.le_refl (crest up down (x :: xs)))
    have hrest : crest up down xs ≤
        crest up down (x :: xs) + (if down x then 1 else 0) - (if up x then 1 else 0) := by
      rw [crest_le_iff]
      intro q hq
      have hbound := hcons (x :: q) (List.cons_prefix_cons.2 ⟨rfl, hq⟩)
      rw [List.countP_cons, List.countP_cons] at hbound
      omega
    have hfirst := hcons [x] (List.cons_prefix_cons.2 ⟨rfl, List.nil_prefix⟩)
    rw [List.countP_singleton, List.countP_singleton] at hfirst
    omega

/-- Behind the first part the second starts from where the first one ended. -/
theorem crest_append : crest up down (xs ++ ys) =
    max (crest up down xs) (xs.countP up + crest up down ys - xs.countP down) := by
  induction xs with
  | nil => simp
  | cons x xs ih =>
    rw [List.cons_append, crest_cons, crest_cons, ih, List.countP_cons, List.countP_cons]
    have hup := crest_le_iff.1 (Nat.le_refl (crest up down xs)) xs (List.prefix_refl xs)
    split <;> split <;> omega

/-- A part that ends where it began does not lift what follows. -/
theorem crest_append_of_level (h : xs.countP up = xs.countP down) :
    crest up down (xs ++ ys) = max (crest up down xs) (crest up down ys) := by
  rw [crest_append, h, Nat.add_sub_cancel_left]

/-- A list leads up no further than its elements that lead up. -/
theorem crest_le_countP : crest up down xs ≤ xs.countP up := by
  refine crest_le_iff.2 fun p hp => ?_
  have hle := hp.sublist.countP_le (p := up)
  omega

/-- Without an element that leads up the crest is at the start. -/
theorem crest_eq_zero (h : xs.countP up = 0) : crest up down xs = 0 := by
  have hle : crest up down xs ≤ xs.countP up := crest_le_countP
  omega

end

end BoolQuery
