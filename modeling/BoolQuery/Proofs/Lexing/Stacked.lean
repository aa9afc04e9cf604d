/-
# A reader is a stack in front of a fixed stream

However reading and giving back alternate, and whatever tokens are given, a reader delivers what a
much simpler thing delivers: a stack of tokens, and a number of tokens taken off those that `lex`
lists, the last of which stands there for ever.

| use | on the stack | taken of the line | delivered |
| --- | --- | ---: | --- |
| a token is given | on top | | |
| one is read, the stack is not empty | without the top | | the top |
| one is read, the stack is empty | | one more | the token at that place |

What was not scanned of the line stands behind the tokens that were taken, and only reading from an
empty stack moves it.
-/

import BoolQuery.Proofs.Lexing.Cut
import BoolQuery.Proofs.Lexing.Places

namespace BoolQuery

open Reader

/-- What can be done with a reader. -/
inductive Use
  /-- One token is read. -/
  | next
  /-- A token is given, to be read next; it may be one that was never read. -/
  | push (t : Token)

/-- All that is delivered when something is used again and again, and what it becomes in the end. -/
def deliver {σ : Type} (use : σ → Use → List Token × σ) (s : σ) : List Use → List Token × σ
  | [] => ([], s)
  | u :: us => ((use s u).1 ++ (deliver use (use s u).2 us).1, (deliver use (use s u).2 us).2)

theorem deliver_append {σ : Type} (use : σ → Use → List Token × σ) (s : σ) (us vs : List Use) :
    deliver use s (us ++ vs) =
      ((deliver use s us).1 ++ (deliver use (deliver use s us).2 vs).1,
        (deliver use (deliver use s us).2 vs).2) := by
  induction us generalizing s with
  | nil => rfl
  | cons u us ih => simp [deliver, ih]

/-- Uses of two things that deliver the same and stay in a relation deliver the same in the end. -/
theorem deliver_related {σ τ : Type} {use : σ → Use → List Token × σ}
    {use' : τ → Use → List Token × τ} {R : σ → τ → Prop}
    (h : ∀ s t u, R s t → (use s u).1 = (use' t u).1 ∧ R (use s u).2 (use' t u).2)
    {s : σ} {t : τ} (hst : R s t) (us : List Use) :
    (deliver use s us).1 = (deliver use' t us).1 ∧
      R (deliver use s us).2 (deliver use' t us).2 := by
  induction us generalizing s t with
  | nil => exact ⟨rfl, hst⟩
  | cons u us ih =>
    obtain ⟨hu, hrel⟩ := h s t u hst
    obtain ⟨hus, hend⟩ := ih hrel
    exact ⟨by rw [deliver, deliver, hu, hus], hend⟩

namespace Reader

/-- What a reader delivers at one use, and the reader behind it. -/
def use (r : Reader) : Use → List Token × Reader
  | .next => ([r.next.1], r.next.2)
  | .push t => ([], r.push t)

/-! ### What is to come decides -/

/-- Readers with the same tokens to come deliver the same, however they are used. -/
theorem deliver_of_stream {r s : Reader} (h : r.stream = s.stream) (us : List Use) :
    (deliver use r us).1 = (deliver use s us).1 := by
  refine (deliver_related (R := fun r s : Reader => r.stream = s.stream) ?_ h us).1
  intro r s u hrs
  cases u with
  | next =>
    constructor
    · exact congrArg (fun f : Nat → Token => [f 0]) hrs
    · funext n
      exact congrFun hrs (n + 1)
  | push t =>
    constructor
    · rfl
    · simp only [use, stream_push, hrs]

/-- Reading some tokens delivers what was to come first. -/
theorem deliver_next (r : Reader) (k : Nat) :
    (deliver use r (List.replicate k .next)).2 = r.skip k ∧
      (deliver use r (List.replicate k .next)).1.length = k ∧
      inFront (deliver use r (List.replicate k .next)).1 (r.skip k).stream = r.stream := by
  induction k generalizing r with
  | zero => exact ⟨rfl, rfl, rfl⟩
  | succ k ih =>
    obtain ⟨hskip, hlength, hstream⟩ := ih r.next.2
    rw [List.replicate_succ, deliver]
    refine ⟨hskip, by simp [use, hlength], ?_⟩
    simp only [use, inFront_append, skip, hstream]
    exact (stream_next r).symm

/-- Tokens that are given back, the last one first, are all that comes of it. -/
theorem deliver_push (r : Reader) (ts : List Token) :
    deliver use r (ts.reverse.map .push) = ([], r.pushAll ts) := by
  induction ts with
  | nil => rfl
  | cons t ts ih =>
    rw [List.reverse_cons, List.map_append, deliver_append, ih]
    rfl

/-- **Tokens that are read and given back in reverse order come again**, and nothing else changes of
what is to come. -/
theorem stream_giveBack (r : Reader) (k : Nat) :
    ((r.skip k).pushAll (deliver use r (List.replicate k .next)).1).stream = r.stream := by
  rw [stream_pushAll, (deliver_next r k).2.2]

/-! ### What was not scanned -/

/-- What is left of a text stands behind the tokens that were taken off it. -/
theorem rest_skip {r : Reader} (hp : r.pushed = []) (n : Nat) :
    r.rest = (Token.joined (Token.wide (r.drain.1.take n))).toList ++ (r.skip n).rest := by
  induction n generalizing r with
  | zero => simp [skip]
  | succ n ih =>
    have hnext := ih (pushed_next hp)
    by_cases hz : r.next.1.kind.isZeroWidth = true
    · rw [next_of_isZeroWidth hp hz] at hnext
      rw [skip, next_of_isZeroWidth hp hz]
      rw [drain_eq, if_pos hz] at hnext ⊢
      -- A token without width is the only one to come, and takes nothing.
      have htake : Token.wide ([r.next.1].take n) = [] := by
        cases n <;> simp [Token.wide, hz]
      have htake' : Token.wide ([r.next.1].take (n + 1)) = [] := by simp [Token.wide, hz]
      rw [htake] at hnext
      rw [htake']
      exact hnext
    · have hrest : r.rest = r.next.1.text.toList ++ r.next.2.rest := by
        obtain ⟨pushed, rest, offset⟩ := r
        obtain rfl : pushed = [] := hp
        rcases Lexicon.lexeme_cases rest with ⟨-, hl⟩ | ⟨-, hl, -⟩ | ⟨-, -, hprefix⟩
        · simp [next, scan, hl, Kind.isZeroWidth] at hz
        · simp [next, scan, hl, Kind.isZeroWidth] at hz
        · simpa [next, scan] using (List.prefix_iff_eq_append.1 hprefix).symm
      rw [drain_eq, if_neg hz, skip, List.take_succ_cons, hrest, hnext]
      simp [Token.wide, hz]

end Reader

/-! ### The stack in front of the line -/

/-- A stack of tokens in front of the tokens that stand at fixed places. -/
structure Stacked where
  /-- The tokens on the stack, the one on top first. -/
  stack : List Token
  /-- How many tokens were taken off those at the places. -/
  taken : Nat

namespace Stacked

/-- The stack is empty, and nothing was taken. -/
def start : Stacked := ⟨[], 0⟩

/-- What is delivered at one use, and what is there behind it. -/
def use (place : Nat → Token) (m : Stacked) : Use → List Token × Stacked
  | .push t => ([], { m with stack := t :: m.stack })
  | .next =>
    match m.stack with
    | t :: ts => ([t], { m with stack := ts })
    | [] => ([place m.taken], { m with taken := m.taken + 1 })

/-- The reader of a line is where the stack and the number of tokens taken tell: it has been given
the tokens on the stack, and without them it has read so many tokens of the line. -/
structure Tells (line : String) (r : Reader) (m : Stacked) : Prop where
  pushed : r.pushed = m.stack
  place : { r with pushed := [] } = (Reader.ofString line).skip m.taken

variable {line : String} {r : Reader} {m : Stacked}

/-- **What a stack in front of the line tells of a reader it tells behind every use**, and both
deliver the same. -/
theorem Tells.use (h : Tells line r m) (u : Use) :
    (r.use u).1 = (m.use (tokenAt line) u).1 ∧
      Tells line (r.use u).2 (m.use (tokenAt line) u).2 := by
  obtain ⟨pushed, rest, offset⟩ := r
  obtain ⟨stack, taken⟩ := m
  obtain ⟨rfl, hplace⟩ := h
  cases u with
  | push t => exact ⟨rfl, rfl, hplace⟩
  | next =>
    cases pushed with
    | cons t ts => exact ⟨rfl, rfl, hplace⟩
    | nil =>
      have hplace : (⟨[], rest, offset⟩ : Reader) = (Reader.ofString line).skip taken := hplace
      have hnext : (Reader.next ⟨[], rest, offset⟩).1 = tokenAt line taken := by
        rw [hplace, next_skip]
      refine ⟨by simp [Reader.use, Stacked.use, hnext], rfl, ?_⟩
      rw [Stacked.use, skip_succ, ← hplace]
      rfl

theorem Tells.remainder (h : Tells line r m) :
    line = Token.joined (Token.wide ((lex line).take m.taken)) ++ r.remainder := by
  have hrest := rest_skip (r := Reader.ofString line) rfl m.taken
  rw [← h.place] at hrest
  rw [← String.toList_inj, String.toList_append, Reader.remainder, String.toList_ofList]
  exact hrest

end Stacked

/-- **A reader is a stack in front of a fixed stream.** Read from a line and given tokens in any
order, it delivers what a stack delivers in front of the tokens of the line, the last of which is
repeated for ever. As many tokens are pending as are on the stack. The remainder stands behind the
tokens with a width that were taken off the line, and only reading from an empty stack changes it.
In whatever state a reader is, it delivers the same in future if some tokens are read and given
back, the last one first. -/
theorem deliver_eq_stacked (line : String) (us : List Use) :
    let run := deliver Reader.use (.ofString line) us
    let model := deliver (Stacked.use (tokenAt line)) .start us
    run.1 = model.1 ∧
    run.2.pending = model.2.stack.length ∧
    line = Token.joined (Token.wide ((lex line).take model.2.taken)) ++ run.2.remainder ∧
    (∀ u, (run.2.use u).2.remainder ≠ run.2.remainder → u = .next ∧ model.2.stack = []) ∧
    ∀ (r : Reader) (k : Nat),
      let read := deliver Reader.use r (List.replicate k .next)
      let back := deliver Reader.use read.2 (read.1.reverse.map .push)
      read.1.length = k ∧
        ∀ vs, (deliver Reader.use back.2 vs).1 = (deliver Reader.use r vs).1 := by
  intro run model
  obtain ⟨hrun, htells⟩ : run.1 = model.1 ∧ Stacked.Tells line run.2 model.2 :=
    deliver_related (fun _ _ u h => h.use u) ⟨rfl, rfl⟩ us
  refine ⟨hrun, ?_, htells.remainder, ?_, ?_⟩
  · rw [Reader.pending, htells.pushed]
  · intro u hu
    cases u with
    | push t => exact absurd rfl hu
    | next =>
      refine ⟨rfl, ?_⟩
      rw [← htells.pushed]
      -- A token that is taken off the stack leaves the remainder alone.
      by_contra hne
      obtain ⟨t, ts, hts⟩ := List.exists_cons_of_ne_nil hne
      exact hu (by simp [Reader.use, Reader.next, hts, Reader.remainder])
  · intro r k read back
    obtain ⟨hskip, hlength, -⟩ := deliver_next r k
    refine ⟨hlength, fun vs => deliver_of_stream ?_ vs⟩
    have hback : back.2 = (r.skip k).pushAll read.1 := by
      rw [← hskip]
      exact congrArg Prod.snd (deliver_push read.2 read.1)
    rw [hback]
    exact stream_giveBack r k

end BoolQuery
