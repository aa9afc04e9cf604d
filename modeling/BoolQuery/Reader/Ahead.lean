/-
# The tokens to come

What a reader will deliver, seen in two ways:

* `stream`: all tokens to come, without end, since the last one is repeated for ever;
* `ahead`: those of them that have a width, of which there are finitely many.

Both are views: reading takes the first token off, and giving back puts tokens in front. What
holds of every view is proved once, for `View`.
-/

import BoolQuery.Reader

namespace BoolQuery
namespace Reader

/-- A way to look at the tokens to come. -/
structure View (α : Type) where
  /-- What is seen of the tokens to come. -/
  see : Reader → α
  /-- What is seen with some tokens in front. -/
  prepend : List Token → α → α
  prepend_nil : ∀ a, prepend [] a = a
  prepend_append : ∀ ts us a, prepend (ts ++ us) a = prepend ts (prepend us a)
  prepend_next : ∀ r, prepend [r.next.1] (see r.next.2) = see r
  see_pushAll : ∀ ts r, see (r.pushAll ts) = prepend ts (see r)

/-- A token that is read and given back leaves the tokens to come as they were. -/
theorem View.see_giveBack {α : Type} (v : View α) (r : Reader) :
    v.see (r.next.2.pushAll [r.next.1]) = v.see r := by
  rw [v.see_pushAll, v.prepend_next]

/-! ### All tokens to come -/

/-- The tokens to come, by their distance. -/
def stream (r : Reader) : Nat → Token
  | 0 => r.next.1
  | n + 1 => r.next.2.stream n

/-- A stream with some tokens in front. -/
def inFront (ts : List Token) (f : Nat → Token) : Nat → Token :=
  match ts with
  | [] => f
  | t :: ts => fun
    | 0 => t
    | n + 1 => inFront ts f n

/-- Tokens in front of a stream, in two parts. -/
theorem inFront_append (ts us : List Token) (f : Nat → Token) :
    inFront (ts ++ us) f = inFront ts (inFront us f) := by
  induction ts with
  | nil => rfl
  | cons t ts ih => funext n; cases n <;> simp [inFront, ih]

/-- A token that is pushed back comes first. -/
theorem stream_push (t : Token) (r : Reader) : (r.push t).stream = inFront [t] r.stream := by
  funext n
  cases n <;> rfl

/-- Tokens that are pushed back come first, in their order. -/
theorem stream_pushAll (ts : List Token) (r : Reader) :
    (r.pushAll ts).stream = inFront ts r.stream := by
  induction ts with
  | nil => rfl
  | cons t ts ih =>
    rw [show r.pushAll (t :: ts) = (r.pushAll ts).push t from rfl, stream_push, ih]
    exact (inFront_append [t] ts r.stream).symm

/-- All tokens to come, as a view. -/
def streamView : View (Nat → Token) where
  see := stream
  prepend := inFront
  prepend_nil _ := rfl
  prepend_append := inFront_append
  prepend_next r := by funext n; cases n <;> rfl
  see_pushAll := stream_pushAll

/-! ### The tokens to come that have a width -/

/-- The tokens with a width that are to come. -/
def ahead (r : Reader) : List Token :=
  Token.wide (r.pushed ++ { r with pushed := [] }.drain.1)

/-- Tokens that are pushed back are to come, if they have a width. -/
theorem ahead_pushAll (ts : List Token) (r : Reader) :
    (r.pushAll ts).ahead = Token.wide ts ++ r.ahead := by
  simp [ahead, pushAll_eq]

/-- A reader without tokens pushed back loses none. -/
theorem fresh_eq {r : Reader} (h : r.pushed = []) : { r with pushed := [] } = r := by
  cases r
  simp_all

/-- The next token is the first of those to come, if it has a width. -/
theorem ahead_next (r : Reader) : Token.wide [r.next.1] ++ r.next.2.ahead = r.ahead := by
  obtain ⟨pushed, rest, offset⟩ := r
  cases pushed with
  | cons t ts =>
    simp only [ahead, next, Token.wide, List.cons_append, List.filter_cons]
    split <;> rfl
  | nil =>
    simp only [ahead, List.nil_append]
    rw [drain_eq (r := ⟨[], rest, offset⟩)]
    split
    · rename_i h
      have hn : (Lexicon.lexeme rest).2 = [] :=
        Lexicon.lexeme_eq_nil (by simpa [next, scan] using h)
      have hs : (next ⟨[], rest, offset⟩).2 = ⟨[], rest, offset⟩ := by
        simp [next, scan, hn]
      rw [hs]
      simp only [List.nil_append]
      rw [drain_eq, if_pos h, hs]
      simp [Token.wide, h]
    · have hp : (next ⟨[], rest, offset⟩).2.pushed = [] := by simp [next, scan]
      rw [hp, fresh_eq hp]
      simp only [Token.wide, List.nil_append, List.filter_cons]
      split <;> rfl

/-- The tokens to come that have a width, as a view. -/
def aheadView : View (List Token) where
  see := ahead
  prepend ts a := Token.wide ts ++ a
  prepend_nil _ := rfl
  prepend_append ts us a := by simp
  prepend_next := ahead_next
  see_pushAll := ahead_pushAll

/-- A reader delivers no more tokens with a width than its size tells. -/
theorem length_wide_drain_le (r : Reader) : (Token.wide r.drain.1).length ≤ r.size := by
  rw [drain_eq]
  split
  · rename_i h
    simp [Token.wide, h]
  · rename_i h
    have hlt := size_next_lt (r := r) (by simpa using h)
    have ih := length_wide_drain_le r.next.2
    simp only [Token.wide, List.filter_cons] at ih ⊢
    split <;> simp <;> omega
termination_by r.size

/-- There are no more tokens with a width to come than the size of the reader tells. -/
theorem length_ahead_le (r : Reader) : r.ahead.length ≤ r.size := by
  have h := length_wide_drain_le { r with pushed := [] }
  have hp := List.length_filter_le (fun t : Token => !t.kind.isZeroWidth) r.pushed
  simp only [ahead, Token.wide_append, List.length_append, size, List.length_nil,
    Nat.zero_add] at *
  simp only [Token.wide] at *
  omega

end Reader
end BoolQuery
