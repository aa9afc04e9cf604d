/-
# Whitespace stands alone

A whitespace token takes all blanks that stand together, so no other whitespace token follows it.
The grammar relies on that: where whitespace may be missing there is never more than one token of
it to take.
-/

import BoolQuery.Proofs.Lexing.Places
import Mathlib.Data.List.Chain

namespace BoolQuery
namespace Lexicon

/-- No match of another rule is promoted to whitespace. -/
theorem promote_eq_whitespace {kind : TokenKind} {taken after : List Char}
    (h : promote kind taken after = .whitespace) : kind = .whitespace := by
  unfold promote at h
  split at h
  · rename_i hw
    split at h
    · cases h
    · split at h
      · cases h
      · exact h
  · exact h

/-- A whitespace token takes all the blanks at its place. -/
theorem lexeme_of_whitespace {cs : List Char} (h : (lexeme cs).1 = .whitespace) :
    (lexeme cs).2 = cs.takeWhile isBlank ∧ (lexeme cs).2 ≠ [] := by
  unfold lexeme at h ⊢
  split at h
  · cases h
  · rename_i hcs
    rw [if_neg hcs]
    split at h
    · cases h
    · rename_i kind taken hl
      obtain ⟨p, hp, hm⟩ := exists_mem_of_longest? hl
      obtain rfl : kind = .whitespace := promote_eq_whitespace h
      obtain rfl : p = .run isBlank := by simpa [rules] using hp
      refine ⟨?_, longest?_ne_nil hl⟩
      cases cs with
      | nil => exact absurd rfl hcs
      | cons c cs =>
        simp only [Pattern.match?] at hm
        split at hm
        · rename_i hc
          rw [List.takeWhile_cons_of_pos hc]
          exact (Option.some.inj hm).symm
        · cases hm

/-- Behind the blanks that stand together no blank is left to take. -/
theorem takeWhile_drop_takeWhile (p : Char → Bool) (cs : List Char) :
    (cs.drop (cs.takeWhile p).length).takeWhile p = [] := by
  induction cs with
  | nil => rfl
  | cons c cs ih =>
    by_cases hc : p c = true
    · rw [List.takeWhile_cons_of_pos hc, List.length_cons, List.drop_succ_cons]
      exact ih
    · rw [List.takeWhile_cons_of_neg hc, List.length_nil, List.drop_zero,
        List.takeWhile_cons_of_neg hc]

/-- Behind a match of whitespace there is no other one. -/
theorem lexeme_after_whitespace {cs : List Char} (h : (lexeme cs).1 = .whitespace) :
    (lexeme (cs.drop (lexeme cs).2.length)).1 ≠ .whitespace := by
  intro h'
  obtain ⟨ht, -⟩ := lexeme_of_whitespace h
  obtain ⟨ht', hne⟩ := lexeme_of_whitespace h'
  rw [ht, takeWhile_drop_takeWhile, ← ht] at ht'
  exact hne ht'

end Lexicon

/-- No two whitespace tokens stand side by side. -/
def Spaced (ts : List Token) : Prop :=
  ts.IsChain fun t u => ¬ (t.kind = .token .whitespace ∧ u.kind = .token .whitespace)

/-- Two whitespace tokens never stand side by side in spaced tokens. -/
theorem Spaced.not_twice {ts us : List Token} {t u : Token} (h : Spaced (ts ++ t :: u :: us))
    (ht : t.kind = .token .whitespace) : u.kind ≠ .token .whitespace := by
  intro hu
  have hr := (List.isChain_append_cons_cons.1 h).2.1
  exact hr ⟨ht, hu⟩

namespace Reader

/-- A reader does not deliver whitespace twice in a row. -/
theorem next_after_whitespace {r : Reader} (hp : r.pushed = [])
    (h : r.next.1.kind = .token .whitespace) : r.next.2.next.1.kind ≠ .token .whitespace := by
  obtain ⟨pushed, rest, offset⟩ := r
  obtain rfl : pushed = [] := hp
  intro h'
  have hspace : (Lexicon.lexeme rest).1 = .whitespace := by simpa [next, scan] using h
  refine Lexicon.lexeme_after_whitespace hspace ?_
  simpa [next, scan] using h'

/-- The first of all tokens is the next one. -/
theorem head?_drain (r : Reader) : r.drain.1.head? = some r.next.1 := by
  rw [drain_eq]
  split <;> rfl

/-- All tokens of a reader are spaced: by recursion over what is left to read. -/
theorem spaced_drain {r : Reader} (hp : r.pushed = []) : Spaced r.drain.1 := by
  rw [drain_eq]
  split
  · exact List.isChain_singleton _
  · rename_i h
    have hlt := size_next_lt (r := r) (by simpa using h)
    refine List.isChain_cons.2 ⟨?_, spaced_drain (pushed_next hp)⟩
    rintro u hu ⟨ht, hk⟩
    rw [head?_drain] at hu
    obtain rfl := Option.some.inj hu
    exact next_after_whitespace hp ht hk
termination_by r.size

end Reader

/-- **Whitespace stands alone** among the tokens of a line. -/
theorem spaced_lex (line : String) : Spaced (lex line) := Reader.spaced_drain rfl

/-- Behind a place with whitespace stands no other whitespace. -/
theorem tokenAt_after_whitespace {line : String} {i : Nat}
    (h : (tokenAt line i).kind = .token .whitespace) :
    (tokenAt line (i + 1)).kind ≠ .token .whitespace := by
  have hstream := congrFun (Reader.stream_skip i (Reader.ofString line)) 1
  rw [stream_ofString] at hstream
  rw [← next_skip] at h
  rw [← hstream]
  exact Reader.next_after_whitespace (Reader.pushed_skip i rfl) h

/-- The first tokens of a line are spaced. -/
theorem spaced_of_lex {line : String} {ts us : List Token} (h : lex line = ts ++ us) :
    Spaced ts := by
  have hs := spaced_lex line
  rw [h] at hs
  exact hs.left_of_append

end BoolQuery
