/-
# Where a match by place may end

A repetition takes as many tails as match, so a match ends early enough only if what stands behind
it lets no further tail begin. Each tail of the grammar begins with whitespace and one telling
token:

| production | goes on behind whitespace with |
| --- | --- |
| `WordSequence`, `PhraseOrWords`, `Term` | a word |
| `AndTerm` | a word, `AND` |
| `OrTerm` | a word, `AND`, `OR` |

A star would turn a word in front of it into a `PrefixTerm`, and a query is at its end only where
something closes it.
-/

import BoolQuery.Proofs.ByPlace.Basic
import BoolQuery.Proofs.Grammar.Trees
import BoolQuery.Proofs.Lexing.Places

namespace BoolQuery
namespace ByPlace

open Grammar BoolQuery.Tree

/-- The kinds of tokens that, behind whitespace, let a match of a production go on. -/
def continuations : NodeKind → List TokenKind
  | .wordSequence | .phraseOrWords | .term => [.word]
  | .andTerm => [.word, .kwAnd]
  | .orTerm => [.word, .kwAnd, .kwOr]
  | .exclusion | .inclusion | .prefixTerm | .query => []

/-- What stands from place `j` on ends a match of the production. -/
structure EndsAt (place : Nat → Token) (k : NodeKind) (j : Nat) : Prop where
  no_star : (place j).kind ≠ .token .starOp
  no_more : (place j).kind = .token .whitespace →
    ∀ a ∈ continuations k, (place (j + 1)).kind ≠ .token a
  closed : k = .query → (place j).kind = .token .parenClose ∨ (place j).kind = .token .eof

variable {place : Nat → Token} {i j l : Nat}

/-- What ends a match ends a match of a production that could go on in fewer ways. -/
theorem EndsAt.mono {k m : NodeKind} (h : EndsAt place k j)
    (hsub : continuations m ⊆ continuations k) (hm : m ≠ .query) : EndsAt place m j :=
  ⟨h.no_star, fun hw a ha => h.no_more hw a (hsub ha), fun hq => absurd hq hm⟩

/-- Whitespace ends a match if the token behind it does not let the match go on. -/
theorem endsAt_of_space {k : NodeKind} {a : TokenKind} (hj : (place j).kind = .token .whitespace)
    (ha : (place (j + 1)).kind = .token a) (hk : a ∉ continuations k) (hq : k ≠ .query) :
    EndsAt place k j := by
  refine ⟨?_, fun _ b hb hplace => ?_, fun h => absurd h hq⟩
  · rw [hj]
    decide
  · rw [ha] at hplace
    cases hplace
    exact hk hb

/-- What closes a query ends every match. -/
theorem endsAt_of_closed {k : NodeKind}
    (h : (place j).kind = .token .parenClose ∨ (place j).kind = .token .eof) :
    EndsAt place k j := by
  refine ⟨?_, ?_, fun _ => h⟩
  · rcases h with h | h <;> rw [h] <;> decide
  · intro hw
    rcases h with h | h <;> rw [h] at hw <;> cases hw

/-- Whitespace in front of what closes a query ends the match of an `OrTerm`. -/
theorem endsAt_of_space_closed (hj : (place j).kind = .token .whitespace)
    (h : (place (j + 1)).kind = .token .parenClose ∨ (place (j + 1)).kind = .token .eof) :
    EndsAt place .orTerm j := by
  rcases h with h | h
  · exact endsAt_of_space hj h (by decide) (by decide)
  · exact endsAt_of_space hj h (by decide) (by decide)

/-! ### Tokens in a row -/

/-- Where another token stands than the first one all steps miss. -/
theorem steps_miss_first {k : TokenKind} {ds : List Designator}
    (h : (place i).kind ≠ .token k) : steps place (tok k :: ds) i = some none :=
  steps_cons_miss (step_token_miss h)

/-- Where one of the first two tokens is another one all steps miss. -/
theorem steps_miss_second {k m : TokenKind} {ds : List Designator}
    (h : (place i).kind = .token k → (place (i + 1)).kind ≠ .token m) :
    steps place (tok k :: tok m :: ds) i = some none := by
  by_cases hk : (place i).kind = .token k
  · exact steps_cons_miss_behind (step_token_hit hk) (steps_miss_first (h hk))
  · exact steps_miss_first hk

/-- Tokens that stand where they are asked for match, and what follows them goes on behind. -/
theorem steps_tokens_hit {ks : List TokenKind} {us : List Token} {ds : List Designator}
    {g : Forest} (hus : us.map Token.kind = ks.map Kind.token) (hs : StandAt place i us)
    (h : steps place ds (i + us.length) = some (some (g, l))) :
    steps place (ks.map tok ++ ds) i = some (some (us.map leaf ++ g, l)) := by
  induction ks generalizing us i with
  | nil =>
    obtain rfl := List.map_eq_nil_iff.1 hus
    exact h
  | cons k ks ih =>
    obtain ⟨u, vs, rfl, hu, hvs⟩ := List.map_eq_cons_iff.1 hus
    obtain ⟨rfl, hvs'⟩ := standAt_cons.1 hs
    rw [List.length_cons, show i + (vs.length + 1) = i + 1 + vs.length by omega] at h
    show steps place (tok k :: (ks.map tok ++ ds)) i =
      some (some ([leaf (place i)] ++ (vs.map leaf ++ g), l))
    exact steps_cons_hit (step_token_hit hu) (ih hvs hvs' h)

/-! ### Chains -/

section

variable {d : Designator} (item : Kind) (between : List TokenKind) (ends : Nat → Prop)

/-- The tails of a chain match one after the other up to its end, if an item may end in front of
what stands between two items and no further tail begins behind the last one. -/
theorem tails_of_chain {n : Nat} {f : Forest}
    (hbetween : ∀ j us, us.map Token.kind = between.map Kind.token → StandAt place j us → ends j)
    (hstop : steps place (between.map tok ++ [d]) l = some none) (hl : ends l)
    (hf : f.map kind = (List.replicate n (between.map Kind.token ++ [item])).flatten)
    (hd : ∀ t ∈ f, t.IsDerivation)
    (hitem : ∀ t ∈ f, t.kind = item → ∀ j, StandAt place j t.tokens →
      ends (j + t.tokens.length) → step place d j = some (some ([t], j + t.tokens.length)))
    (hs : StandAt place j (forestTokens f)) (hj : j + (forestTokens f).length = l) :
    ends j ∧ tails place (between.map tok ++ [d]) j = some (f, l) := by
  induction n generalizing f j with
  | zero =>
    obtain rfl := List.map_eq_nil_iff.1 hf
    obtain rfl : j = l := hj
    exact ⟨hl, tails_stop hstop⟩
  | succ n ih =>
    rw [List.replicate_succ, List.flatten_cons, List.append_assoc] at hf
    obtain ⟨bs, rest, rfl, hbs, hrest⟩ := List.map_eq_append_iff.1 hf
    obtain ⟨t, g, rfl, ht, hg⟩ := List.map_eq_cons_iff.1 hrest
    rw [List.forall_mem_append, List.forall_mem_cons] at hd
    obtain ⟨us, rfl, hus⟩ := eq_map_leaf between hd.1 hbs
    rw [forestTokens_append, forestTokens_cons, forestTokens_map_leaf] at hs hj
    obtain ⟨hsus, hs⟩ := standAt_append.1 hs
    obtain ⟨hst, hs⟩ := standAt_append.1 hs
    obtain ⟨hends, htails⟩ := ih hg hd.2.2
      (fun u hu => hitem u (List.mem_append_right _ (.tail _ hu))) hs
      (by simp only [List.length_append] at hj; omega)
    have hmem : t ∈ us.map leaf ++ t :: g := List.mem_append_right _ (.head _)
    have hstep := hitem t hmem ht _ hst hends
    refine ⟨hbetween j us hus hsus, ?_⟩
    rw [tails_more (steps_tokens_hit hus hsus (steps_single_hit hstep)) htails,
      List.append_assoc, List.singleton_append]

/-- A chain matches as a repetition of its item. -/
theorem repetition_of_chain {n : Nat} {f : Forest}
    (hbetween : ∀ j us, us.map Token.kind = between.map Kind.token → StandAt place j us → ends j)
    (hstop : steps place (between.map tok ++ [d]) (i + (forestTokens f).length) = some none)
    (hends : ends (i + (forestTokens f).length))
    (hf : f.map kind = chain item (between.map Kind.token) n) (hd : ∀ t ∈ f, t.IsDerivation)
    (hitem : ∀ t ∈ f, t.kind = item → ∀ j, StandAt place j t.tokens →
      ends (j + t.tokens.length) → step place d j = some (some ([t], j + t.tokens.length)))
    (hs : StandAt place i (forestTokens f)) :
    repetition place [d] (between.map tok ++ [d]) i =
      some (some (f, i + (forestTokens f).length)) := by
  obtain ⟨t, g, rfl, ht, hg⟩ := List.map_eq_cons_iff.1 hf
  have hlen : i + (forestTokens (t :: g)).length =
      i + t.tokens.length + (forestTokens g).length := by
    rw [forestTokens_cons, List.length_append]
    omega
  rw [forestTokens_cons] at hs
  obtain ⟨hst, hs⟩ := standAt_append.1 hs
  obtain ⟨hmid, htails⟩ := tails_of_chain item between ends hbetween hstop hends hg
    (fun u hu => hd u (.tail _ hu)) (fun u hu => hitem u (.tail _ hu)) hs hlen.symm
  have hstep := hitem t (.head _) ht i hst hmid
  rw [repetition_hit (steps_single_hit hstep) htails, List.singleton_append]

end

end ByPlace
end BoolQuery
