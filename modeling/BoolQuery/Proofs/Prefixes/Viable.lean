/-
# Where a line stops being a query

Token kinds are viable if some continuation of them is a query. A line that nothing matches is
viable up to some token and no further, and the answer names this token: the furthest one that was
not the one asked for. No token behind a viable beginning is ever looked at, as what was passed on
the way to a mismatch begins a query. And the first token that ends the viable beginning is looked
at: otherwise a query would be missed that begins like the line, because the course would not tell
the two apart.
-/

import BoolQuery.Proofs.ByPlace.CourseOfRun
import BoolQuery.Proofs.ByPlace.Mismatches
import BoolQuery.Proofs.Grammar.Squeeze

namespace BoolQuery

open Recognizer Grammar ByPlace

/-- Some continuation of the token kinds is a query. -/
def Viable (w : List TokenKind) : Prop := ∃ v, IsQuery (w ++ v)

/-! ### The furthest token -/

section

variable {place : Nat → Token} {m : Nat}

/-- A mismatch further on is kept. -/
theorem further_of_lt {t u : Token} (h : t.span.start < u.span.start) :
    further (some t) u = some u := by
  rw [further, if_pos (by simpa using h)]

/-- A mismatch no further on is not kept. -/
theorem further_of_le {t u : Token} (h : u.span.start ≤ t.span.start) :
    further (some t) u = some t := by
  rw [further, if_neg (by simpa using h)]

/-- Of tokens at places up to `m` the one at `m` is kept, if it starts behind the others. -/
theorem foldl_further (hstart : ∀ i < m, (place i).span.start < (place m).span.start)
    {is : List Nat} (his : ∀ i ∈ is, i ≤ m) {seen : Option Token}
    (hseen : ∀ t ∈ seen, ∃ i ≤ m, place i = t) (hm : m ∈ is ∨ seen = some (place m)) :
    is.foldl (fun seen i => further seen (place i)) seen = some (place m) := by
  induction is generalizing seen with
  | nil =>
    rcases hm with hm | hm
    · cases hm
    · exact hm
  | cons i is ih =>
    rw [List.forall_mem_cons] at his
    obtain ⟨hi, his⟩ := his
    -- Once the token at `m` is seen none of the others takes its place.
    have hkept : ∀ k ≤ m, further (some (place m)) (place k) = some (place m) := by
      intro k hk
      rcases Nat.lt_or_eq_of_le hk with hlt | rfl
      · exact further_of_le (Nat.le_of_lt (hstart k hlt))
      · exact further_of_le (Nat.le_refl _)
    have hfound : further seen (place m) = some (place m) := by
      cases seen with
      | none => rfl
      | some t =>
        obtain ⟨k, hk, rfl⟩ := hseen t rfl
        rcases Nat.lt_or_eq_of_le hk with hlt | rfl
        · exact further_of_lt (hstart k hlt)
        · exact hkept k (Nat.le_refl k)
    refine ih his ?_ ?_
    · intro t ht
      change t ∈ further seen (place i) at ht
      cases seen with
      | none => exact ⟨i, hi, Option.some.inj ht⟩
      | some u =>
        rcases Nat.lt_or_ge u.span.start (place i).span.start with hlt | hge
        · rw [further_of_lt hlt] at ht
          exact ⟨i, hi, Option.some.inj ht⟩
        · rw [further_of_le hge] at ht
          exact hseen t ht
    · rcases hm with hm | rfl
      · rcases List.mem_cons.1 hm with rfl | hm
        · exact .inr hfound
        · exact .inl hm
      · exact .inr (hkept i hi)

/-- The furthest of the tokens at some places is the one at the furthest place, if it starts behind
the tokens before it. -/
theorem furthestAt_eq (hstart : ∀ i < m, (place i).span.start < (place m).span.start)
    {is : List Nat} (his : ∀ i ∈ is, i ≤ m) (hm : m ∈ is) :
    furthestAt place is = some (place m) :=
  foldl_further hstart his nofun (.inl hm)

end

/-! ### Viable beginnings -/

/-- Tokens are spaced if whitespace stands apart among their kinds. -/
theorem spaced_iff_apart {ts : List Token} {w : List TokenKind}
    (h : ts.map Token.kind = w.map Kind.token) : Spaced ts ↔ Apart w := by
  have hspaced : Spaced ts ↔ (ts.map Token.kind).IsChain fun a b =>
      ¬ (a = .token .whitespace ∧ b = .token .whitespace) := by
    rw [List.isChain_map]
    rfl
  rw [hspaced, h, List.isChain_map]
  simp only [Apart, Kind.token.injEq]

/-- A token of the kind. -/
def Token.ofKind (k : TokenKind) : Token := ⟨k, "", ⟨0, 0⟩⟩

/-- The tokens at their places, and behind them the end of a line. -/
def ended (ts : List Token) (i : Nat) : Token := ts.getD i (.ofKind .eof)

/-- At a place in the list stands its token. -/
theorem ended_eq_getElem {ts : List Token} {i : Nat} (h : i < ts.length) : ended ts i = ts[i] :=
  List.getD_eq_getElem _ _ h

/-- The tokens of the list stand at their places. -/
theorem standAt_ended (ts : List Token) : StandAt (ended ts) 0 ts := by
  intro n hn
  rw [Nat.zero_add, ended_eq_getElem hn]

/-- Behind the list stands the end of a line. -/
theorem kind_ended_length (ts : List Token) : (ended ts ts.length).kind = .token .eof := by
  rw [ended, List.getD_eq_default _ _ (Nat.le_refl _)]
  rfl

/-- A viable beginning of a line is the beginning of tokens over which `Query` matches. -/
theorem exists_completion {line : String} {w : List TokenKind}
    (hbegins : w.map Kind.token <+: (lex line).map Token.kind) (hw : Viable w) :
    ∃ place : Nat → Token, (∀ i < w.length, place i = tokenAt line i) ∧
      ∃ f j, ByPlace.rule place .query 0 = some (some (f, j)) := by
  obtain ⟨rest, hrest⟩ := hbegins
  obtain ⟨us, vs, hlex, hus, -⟩ := List.map_eq_append_iff.1 hrest.symm
  obtain ⟨v, hquery⟩ := hw
  have happart := (spaced_iff_apart hus).1 (spaced_of_lex hlex)
  -- The continuation is squeezed, as no tokens of a line have whitespace beside whitespace.
  have hsqueezed := hquery.squeeze
  have hall := (apart_squeeze false (w ++ v)).1
  rw [squeeze_append, squeeze_of_apart happart fun h => absurd h Bool.false_ne_true]
    at hsqueezed hall
  generalize squeeze (endsSpaced false w) v = x at hsqueezed hall
  have hts : (us ++ x.map Token.ofKind).map Token.kind = (w ++ x).map Kind.token := by
    rw [List.map_append, hus, List.map_map, List.map_append]
    rfl
  obtain ⟨t, hk, htokens, hd, hsettled⟩ :=
    exists_settled hsqueezed hts ((spaced_iff_apart hts).2 hall)
  have hends : EndsAt (ended t.tokens) .query (0 + t.tokens.length) := by
    refine endsAt_of_closed (.inr ?_)
    rw [Nat.zero_add, kind_ended_length]
  refine ⟨ended t.tokens, fun i hi => ?_, _, _,
    hd.met hsettled .query 0 hk (standAt_ended _) hends⟩
  have hlen : us.length = w.length := by
    rw [← List.length_map Token.kind, hus, List.length_map]
  have hplace := standAt_of_lex_append hlex i (by omega)
  rw [Nat.zero_add] at hplace
  rw [hplace, htokens, ended_eq_getElem (by rw [List.length_append]; omega),
    List.getElem_append_left (by omega)]

/-- Where `Query` misses no viable beginning goes beyond the furthest mismatch. -/
theorem length_le_of_miss {line : String} {ns : List Note} {m : Nat} {w : List TokenKind}
    (hc : Course (tokenAt line) (.rule .query) 0 none ns) (hm : ∀ i ∈ Note.mismatches ns, i ≤ m)
    (hbegins : w.map Kind.token <+: (lex line).map Token.kind) (hw : Viable w) : w.length ≤ m := by
  by_contra hlt
  obtain ⟨place, hplace, f, j, hrule⟩ := exists_completion hbegins hw
  have hmiss := (hc.of_agree (fun i hi => hplace i (by omega)) hm nofun).outcome_eq
  rw [Goal.outcome, hrule] at hmiss
  cases hmiss

/-- What stands in front of a mismatch of `Query` is a viable beginning of the line, and not all of
it. -/
theorem exists_viable {line : String} {o : Outcome} {ns : List Note} {m : Nat}
    (hc : Course (tokenAt line) (.rule .query) 0 o ns) (hm : m ∈ Note.mismatches ns) :
    ∃ w, w.map Kind.token <+: (lex line).map Token.kind ∧ Viable w ∧ w.length = m ∧
      (lex line)[m]? = some (tokenAt line m) := by
  obtain ⟨w, v, ⟨ks, rfl, hquery⟩, ⟨us, hus, hkinds⟩, rfl⟩ := (hc.passes trivial).begins m hm
  have hwide : ∀ u ∈ us, u.kind.isZeroWidth = false := by
    intro u hu
    have hmem := List.mem_map_of_mem (f := Token.kind) hu
    rw [hkinds, List.mem_map] at hmem
    obtain ⟨a, ha, hkind⟩ := hmem
    rw [← hkind]
    refine hquery.isZeroWidth ?_ a (List.mem_append_left v ha)
    rw [List.forall_mem_singleton]
    rfl
  obtain ⟨rest, hlex⟩ := exists_lex_append hus hwide
  have hlen : us.length = w.length := by
    rw [← List.length_map Token.kind, hkinds, List.length_map]
  refine ⟨w, ?_, ⟨v, hquery⟩, (Nat.zero_add _).symm, ?_⟩
  · rw [hlex, List.map_append, hkinds]
    exact List.prefix_append ..
  · rw [hlex, Nat.zero_add, ← hlen, List.getElem?_append_right (Nat.le_refl _), Nat.sub_self]
    rfl

/-- **The answer that nothing matched points at the first token that cannot be.** It tells kind and
place of the token behind the longest viable beginning of the line. -/
theorem recognize_longest_viable {line : String} {found : Kind} {span : Span}
    (h : recognize none line = .error (.noMatch found span)) :
    ∃ w t, w.map Kind.token <+: (lex line).map Token.kind ∧ Viable w ∧
      (∀ u : List TokenKind, u.map Kind.token <+: (lex line).map Token.kind → Viable u →
        u.length ≤ w.length) ∧
      (lex line)[w.length]? = some t ∧ found = t.kind ∧ span = t.span := by
  obtain ⟨ns, -, ⟨root, -, hanswer⟩ | ⟨hc, hanswer⟩⟩ := exists_course line
  · rw [h] at hanswer
    dsimp only at hanswer
    split at hanswer <;> cases hanswer
  obtain ⟨i, hi, -⟩ := hc.exists_mismatch rfl nofun
  obtain ⟨m, hmax⟩ := Option.isSome_iff_exists.1 (List.isSome_max?_of_mem hi)
  obtain ⟨hm, hle⟩ := List.max?_eq_some_iff.1 hmax
  obtain ⟨w, hbegins, hviable, rfl, hget⟩ := exists_viable hc hm
  have hfurthest :
      furthestAt (tokenAt line) (Note.mismatches ns) = some (tokenAt line w.length) := by
    refine furthestAt_eq (fun j hj => start_tokenAt_lt hj ?_) hle hm
    exact (List.getElem?_eq_some_iff.1 hget).1
  rw [h, hfurthest] at hanswer
  cases hanswer
  exact ⟨w, _, hbegins, hviable, fun u => length_le_of_miss hc hle, hget, rfl, rfl⟩

/-- `( ` can still become a query, `( AND` no more: the answer points at the `AND`. -/
theorem recognize_longest_viable_keyword :
    recognize none "( AND a" = .error (.noMatch (.token .kwAnd) ⟨2, 3⟩) ∧
      (∃ w, w.map Kind.token <+: (lex "( AND a").map Token.kind ∧ Viable w ∧ w.length = 2) ∧
      ∀ u : List TokenKind, u.map Kind.token <+: (lex "( AND a").map Token.kind → Viable u →
        u.length ≤ 2 := by
  have h : recognize none "( AND a" = .error (.noMatch (.token .kwAnd) ⟨2, 3⟩) := by decide +kernel
  have hkinds : (lex "( AND a").map Token.kind =
      [TokenKind.parenOpen, .whitespace, .kwAnd, .whitespace, .word, .eof].map Kind.token := by
    decide +kernel
  obtain ⟨w, t, hbegins, hviable, hlongest, ht, hfound, -⟩ := recognize_longest_viable h
  have hkind : ((lex "( AND a").map Token.kind)[w.length]? = some (.token .kwAnd) := by
    rw [List.getElem?_map, ht, Option.map_some, ← hfound]
  have hlen : w.length = 2 := by
    rw [hkinds] at hkind
    obtain ⟨hlt, hget⟩ := List.getElem?_eq_some_iff.1 hkind
    generalize w.length = n at hlt hget
    revert hget
    revert n
    decide
  exact ⟨h, ⟨w, hbegins, hviable, hlen⟩, fun u hu hv => hlen ▸ hlongest u hu hv⟩

end BoolQuery
