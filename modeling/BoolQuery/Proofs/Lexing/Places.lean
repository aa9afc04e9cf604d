/-
# The tokens of a line by their places

The tokens that a reader of a line will deliver are those that `lex` lists, and after them the last
one again and again: `Eof` at the end of the line, `Unknown` where it is stuck. So a place in the
stream is an index into the list, and the list is the stream up to its first token without width.
-/

import BoolQuery.Reader.Ahead
import Mathlib.Data.List.GetD

namespace BoolQuery
namespace Reader

/-- Reads some tokens and leaves them. -/
def skip : Nat → Reader → Reader
  | 0, r => r
  | n + 1, r => skip n r.next.2

/-- To skip one token more is to read once more in the end. -/
theorem skip_succ (r : Reader) (n : Nat) : r.skip (n + 1) = (r.skip n).next.2 := by
  induction n generalizing r with
  | zero => rfl
  | succ n ih => exact ih r.next.2

/-- Behind skipped tokens the stream goes on with the others. -/
theorem stream_skip (n : Nat) (r : Reader) : (r.skip n).stream = fun m => r.stream (n + m) := by
  induction n generalizing r with
  | zero =>
    funext m
    rw [skip, Nat.zero_add]
  | succ n ih =>
    funext m
    rw [skip, ih, show n + 1 + m = (n + m) + 1 by omega]
    rfl

/-- Tokens in front of one that repeats are a list with that one as its default. -/
theorem inFront_const (ts : List Token) (t : Token) (n : Nat) :
    inFront ts (fun _ => t) n = ts.getD n t := by
  induction ts generalizing n with
  | nil => rfl
  | cons u ts ih =>
    cases n with
    | zero => rfl
    | succ n => exact ih n

/-- The stream begins with the next token. -/
theorem stream_next (r : Reader) : r.stream = inFront [r.next.1] r.next.2.stream :=
  (streamView.prepend_next r).symm

/-- Where the next token is without width the reader does not move. -/
theorem next_of_isZeroWidth {r : Reader} (hp : r.pushed = [])
    (h : r.next.1.kind.isZeroWidth = true) : r.next.2 = r := by
  obtain ⟨pushed, rest, offset⟩ := r
  obtain rfl : pushed = [] := hp
  have hn : (Lexicon.lexeme rest).2 = [] := Lexicon.lexeme_eq_nil (by simpa [next, scan] using h)
  simp [next, scan, hn]

/-- A reader at a token without width delivers it again and again. -/
theorem stream_of_isZeroWidth {r : Reader} (hp : r.pushed = [])
    (h : r.next.1.kind.isZeroWidth = true) : r.stream = fun _ => r.next.1 := by
  funext n
  induction n with
  | zero => rfl
  | succ n ih =>
    rw [stream, next_of_isZeroWidth hp h]
    exact ih

/-- Reading pushes nothing back. -/
theorem pushed_next {r : Reader} (hp : r.pushed = []) : r.next.2.pushed = [] := by
  obtain ⟨pushed, rest, offset⟩ := r
  obtain rfl : pushed = [] := hp
  rfl

/-- Skipping pushes nothing back. -/
theorem pushed_skip (n : Nat) {r : Reader} (hp : r.pushed = []) : (r.skip n).pushed = [] := by
  induction n generalizing r with
  | zero => exact hp
  | succ n ih => exact ih (pushed_next hp)

/-- Behind a token with a width the next token starts further on. -/
theorem start_next_lt {r : Reader} (hp : r.pushed = [])
    (h : r.next.1.kind.isZeroWidth = false) :
    r.next.1.span.start < r.next.2.next.1.span.start := by
  obtain ⟨pushed, rest, offset⟩ := r
  obtain rfl : pushed = [] := hp
  have hshrinks := Lexicon.lexeme_shrinks rest
  have hbytes : Text.bytes (Lexicon.lexeme rest).2 ≠ 0 := by
    intro hzero
    rw [Text.bytes_eq_zero] at hzero
    rcases hshrinks with hs | hs | hs
    · simp [next, scan, hs, Kind.isZeroWidth] at h
    · simp [next, scan, hs, Kind.isZeroWidth] at h
    · rw [hzero] at hs
      exact Nat.lt_irrefl _ hs
  simp only [next, scan]
  omega

/-- A reader to which nothing was given back drains tokens with a width and a last one without, and
its stream is these tokens with the last one for ever. -/
theorem exists_drain {r : Reader} (hp : r.pushed = []) :
    ∃ ts t, r.drain.1 = ts ++ [t] ∧ (∀ u ∈ ts, u.kind.isZeroWidth = false) ∧
      t.kind.isZeroWidth = true ∧ r.stream = inFront ts fun _ => t := by
  rw [drain_eq]
  split
  · rename_i h
    exact ⟨[], r.next.1, rfl, nofun, h, stream_of_isZeroWidth hp h⟩
  · rename_i h
    have h : r.next.1.kind.isZeroWidth = false := by simpa using h
    have hlt := size_next_lt h
    obtain ⟨ts, t, hd, hts, ht, hs⟩ := exists_drain (pushed_next hp)
    refine ⟨r.next.1 :: ts, t, ?_, ?_, ht, ?_⟩
    · rw [hd, List.cons_append]
    · rintro u (_ | ⟨_, hu⟩)
      · exact h
      · exact hts u hu
    · rw [stream_next, hs]
      exact (inFront_append [r.next.1] ts _).symm
termination_by r.size

/-- What a reader drains is told by its stream: the tokens up to the first one without width. -/
theorem drain_of_stream {r : Reader} {ts : List Token} {f : Nat → Token}
    (h : r.stream = inFront ts f) (hts : ∀ t ∈ ts, t.kind.isZeroWidth = false)
    (hf : (f 0).kind.isZeroWidth = true) : r.drain.1 = ts ++ [f 0] := by
  induction ts generalizing r with
  | nil =>
    have h0 : r.next.1 = f 0 := congrFun h 0
    rw [drain_eq, if_pos (by rw [h0]; exact hf), h0]
    rfl
  | cons t ts ih =>
    have h0 : r.next.1 = t := congrFun h 0
    have ht : t.kind.isZeroWidth = false := hts t (.head _)
    have hs : r.next.2.stream = inFront ts f := by
      funext n
      exact congrFun h (n + 1)
    rw [drain_eq, if_neg (by rw [h0, ht]; exact Bool.false_ne_true), h0,
      ih hs fun u hu => hts u (.tail _ hu)]
    rfl

end Reader

open Reader

/-- The tokens of a line have a width but for the last one, which has none. -/
theorem exists_lex (line : String) :
    ∃ ts t, lex line = ts ++ [t] ∧ (∀ u ∈ ts, u.kind.isZeroWidth = false) ∧
      t.kind.isZeroWidth = true ∧ (Reader.ofString line).stream = inFront ts fun _ => t :=
  exists_drain rfl

/-- Every line has a token: the last one. -/
theorem lex_ne_nil (line : String) : lex line ≠ [] := by
  obtain ⟨ts, t, h, -⟩ := exists_lex line
  rw [h]
  exact List.append_ne_nil_of_right_ne_nil ts (List.cons_ne_nil t [])

/-- The token at a place of a line. The last token of the line stands at every place after its
own. -/
def tokenAt (line : String) (i : Nat) : Token :=
  (lex line).getD i ((lex line).getLast (lex_ne_nil line))

/-- **Reading a line delivers the tokens at its places, one after the other.** -/
theorem stream_ofString (line : String) : (Reader.ofString line).stream = tokenAt line := by
  obtain ⟨ts, t, h, -, -, hs⟩ := exists_lex line
  funext i
  have hlast : (lex line).getLast (lex_ne_nil line) = t := by
    simp only [h, List.getLast_append, List.getLast_singleton, List.isEmpty_cons,
      Bool.false_eq_true, dite_false]
  rw [hs, inFront_const, tokenAt, hlast, h]
  rcases Nat.lt_or_ge i ts.length with hi | hi
  · rw [List.getD_append _ _ _ _ hi]
  · rw [List.getD_eq_default _ _ hi, List.getD_append_right _ _ _ _ hi]
    cases i - ts.length <;> rfl

/-- The tokens at the places of a line are its list of tokens with some default. -/
theorem tokenAt_eq {line : String} {ts : List Token} (h : lex line = ts) :
    ∃ t, ∀ n, tokenAt line n = ts.getD n t := by
  subst h
  exact ⟨_, fun _ => rfl⟩

/-- Exactly the last token of a line has no width, also where it stands again. -/
theorem isZeroWidth_tokenAt {line : String} {i : Nat} :
    (tokenAt line i).kind.isZeroWidth = true ↔ (lex line).length ≤ i + 1 := by
  obtain ⟨ts, t, h, hwide, hlast, hs⟩ := exists_lex line
  have hplace := congrFun ((stream_ofString line).symm.trans hs) i
  rw [inFront_const] at hplace
  rw [hplace, h, List.length_append, List.length_singleton, Nat.add_le_add_iff_right]
  by_cases hi : i < ts.length
  · rw [List.getD_eq_getElem _ _ hi, hwide _ (List.getElem_mem hi)]
    simpa using hi
  · rw [List.getD_eq_default _ _ (Nat.le_of_not_lt hi), hlast]
    simpa using hi

/-- Behind `i` skipped tokens of a line the next one is that at place `i`. -/
theorem next_skip (line : String) (i : Nat) :
    ((Reader.ofString line).skip i).next.1 = tokenAt line i := by
  rw [← stream_ofString line]
  exact congrFun (stream_skip i (Reader.ofString line)) 0

/-- The tokens of a line start one behind the other. -/
theorem start_tokenAt_lt {line : String} {i j : Nat} (hij : i < j) (hj : j < (lex line).length) :
    (tokenAt line i).span.start < (tokenAt line j).span.start := by
  have hnext : ∀ i, i + 1 < (lex line).length →
      (tokenAt line i).span.start < (tokenAt line (i + 1)).span.start := by
    intro i hi
    have hwide : (tokenAt line i).kind.isZeroWidth = false := by
      rw [Bool.eq_false_iff, ne_eq, isZeroWidth_tokenAt]
      omega
    rw [← next_skip] at hwide
    have hlt := start_next_lt (pushed_skip i rfl) hwide
    have hstream := congrFun (stream_skip i (Reader.ofString line)) 1
    rw [stream_ofString] at hstream
    rwa [next_skip, show ((Reader.ofString line).skip i).next.2.next.1 = tokenAt line (i + 1) from
      hstream] at hlt
  induction hij with
  | refl => exact hnext i hj
  | step _ ih => exact Nat.lt_trans (ih (by omega)) (hnext _ hj)

/-- At a place in the line the token there is the first of those to come. -/
theorem drop_lex {line : String} {i : Nat} (hi : i < (lex line).length) :
    (lex line).drop i = tokenAt line i :: (lex line).drop (i + 1) := by
  rw [List.drop_eq_getElem_cons hi, tokenAt, List.getD_eq_getElem _ _ hi]

/-- The tokens stand at the places from `i` on. -/
def StandAt (place : Nat → Token) (i : Nat) (ts : List Token) : Prop :=
  ∀ n, (h : n < ts.length) → place (i + n) = ts[n]

section

variable {place : Nat → Token} {i : Nat}

/-- No tokens stand everywhere. -/
theorem standAt_nil : StandAt place i [] := nofun

/-- Tokens stand at a place if the first of them does, and the others behind it. -/
theorem standAt_cons {t : Token} {ts : List Token} :
    StandAt place i (t :: ts) ↔ place i = t ∧ StandAt place (i + 1) ts := by
  constructor
  · intro h
    refine ⟨h 0 (Nat.zero_lt_succ _), fun n hn => ?_⟩
    rw [show i + 1 + n = i + (n + 1) by omega]
    exact h (n + 1) (Nat.succ_lt_succ hn)
  · rintro ⟨h0, h⟩ n hn
    cases n with
    | zero => exact h0
    | succ n =>
      rw [show i + (n + 1) = i + 1 + n by omega]
      exact h n (Nat.lt_of_succ_lt_succ hn)

/-- Tokens stand at a place if the first ones do, and the others behind them. -/
theorem standAt_append {ts us : List Token} :
    StandAt place i (ts ++ us) ↔ StandAt place i ts ∧ StandAt place (i + ts.length) us := by
  induction ts generalizing i with
  | nil => simp [standAt_nil]
  | cons t ts ih =>
    rw [List.cons_append, standAt_cons, ih, standAt_cons, and_assoc, List.length_cons,
      show i + 1 + ts.length = i + (ts.length + 1) by omega]

/-- Tokens in front of what stands behind them. -/
theorem StandAt.inFront_eq {ts : List Token} (hts : StandAt place i ts) :
    inFront ts (fun n => place (i + ts.length + n)) = fun n => place (i + n) := by
  induction ts generalizing i with
  | nil => rfl
  | cons t ts ih =>
    obtain ⟨ht, hts⟩ := standAt_cons.1 hts
    funext n
    cases n with
    | zero => exact ht.symm
    | succ n =>
      have hi : i + (t :: ts).length = i + 1 + ts.length := by
        rw [List.length_cons]
        omega
      rw [hi, show i + (n + 1) = i + 1 + n by omega]
      exact congrFun (ih hts) n

/-- Tokens that come in front of others stand at the first places, and the others behind them. -/
theorem standAt_of_inFront {ts : List Token} {f : Nat → Token}
    (h : inFront ts f = fun n => place (i + n)) :
    StandAt place i ts ∧ f = fun n => place (i + ts.length + n) := by
  induction ts generalizing i with
  | nil => exact ⟨standAt_nil, h⟩
  | cons t ts ih =>
    have hrest : inFront ts f = fun n => place (i + 1 + n) := by
      funext n
      rw [show i + 1 + n = i + (n + 1) by omega]
      exact congrFun h (n + 1)
    obtain ⟨hts, hf⟩ := ih hrest
    refine ⟨standAt_cons.2 ⟨(congrFun h 0).symm, hts⟩, ?_⟩
    rw [hf, List.length_cons, show i + 1 + ts.length = i + (ts.length + 1) by omega]

/-- Where tokens stand there are tokens of their kinds. -/
theorem StandAt.kind_eq {us : List Token} {ks : List TokenKind} (hs : StandAt place i us)
    (hus : us.map Token.kind = ks.map Kind.token) (n : Nat) (hn : n < ks.length) :
    (place (i + n)).kind = .token ks[n] := by
  have hlen : us.length = ks.length := by
    rw [← List.length_map Token.kind, hus, List.length_map]
  have hkind := List.getElem_of_eq hus (i := n) (by rwa [List.length_map, hlen])
  rw [List.getElem_map, List.getElem_map] at hkind
  rw [hs n (hlen ▸ hn), hkind]

end

/-- The first tokens of a line stand at its first places. -/
theorem standAt_of_lex_append {line : String} {ts us : List Token} (h : lex line = ts ++ us) :
    StandAt (tokenAt line) 0 ts := by
  obtain ⟨d, hd⟩ := tokenAt_eq h
  intro n hn
  rw [Nat.zero_add, hd, List.getD_append _ _ _ _ hn, List.getD_eq_getElem _ _ hn]

/-- Tokens with a width that stand at the places from `i` on are the tokens of the line there. -/
theorem drop_lex_of_standAt {line : String} {i : Nat} {ts : List Token}
    (hs : StandAt (tokenAt line) i ts) (hwide : ∀ t ∈ ts, t.kind.isZeroWidth = false) :
    (lex line).drop i = ts ++ (lex line).drop (i + ts.length) := by
  induction ts generalizing i with
  | nil => rfl
  | cons t ts ih =>
    obtain ⟨ht, hs⟩ := standAt_cons.1 hs
    rw [List.forall_mem_cons] at hwide
    have hi : ¬ (lex line).length ≤ i + 1 := by
      rw [← isZeroWidth_tokenAt, ht, hwide.1]
      exact Bool.false_ne_true
    rw [drop_lex (by omega), ht, ih hs hwide.2, List.cons_append, List.length_cons, Nat.add_assoc,
      Nat.add_comm 1]

/-- Tokens with a width that stand at the first places of a line are its first tokens, and not all
of them. -/
theorem exists_lex_append {line : String} {ts : List Token} (hs : StandAt (tokenAt line) 0 ts)
    (hwide : ∀ t ∈ ts, t.kind.isZeroWidth = false) :
    ∃ us, lex line = ts ++ tokenAt line ts.length :: us := by
  have hlex := drop_lex_of_standAt hs hwide
  rw [List.drop_zero, Nat.zero_add] at hlex
  have hlen : ts.length < (lex line).length := by
    refine Nat.lt_of_not_le fun hle => ?_
    rw [List.drop_of_length_le hle, List.append_nil] at hlex
    -- Then the last token of the line would have a width.
    obtain ⟨us, t, hus, -, ht, -⟩ := exists_lex line
    have hmem : t ∈ ts := by
      rw [← hlex, hus]
      exact List.mem_append_right us (.head _)
    rw [hwide t hmem] at ht
    cases ht
  refine ⟨(lex line).drop (ts.length + 1), ?_⟩
  rw [← drop_lex hlen]
  exact hlex

/-- The tokens of a line but the last stand at its first places, and the last one behind them. -/
theorem standAt_of_lex {line : String} {ts : List Token} {t : Token} (h : lex line = ts ++ [t]) :
    StandAt (tokenAt line) 0 ts ∧ tokenAt line ts.length = t := by
  refine ⟨standAt_of_lex_append h, ?_⟩
  obtain ⟨d, hd⟩ := tokenAt_eq h
  rw [hd, List.getD_append_right _ _ _ _ (Nat.le_refl _), Nat.sub_self, List.getD_cons_zero]

end BoolQuery
