/-
# Settled trees are found

Matching by place is greedy, takes the first alternative that matches and never tries a shorter
repetition. Still it finds every settled derivation tree where the tokens of the tree stand and its
match may end (`Tree.IsDerivation.met`): the alternatives of a production before the right one miss
by their first tokens, or by the star that is not there, and a repetition goes on no longer than it
should because what stands behind it lets no other tail begin.
-/

import BoolQuery.Proofs.ByPlace.Endings
import BoolQuery.Proofs.Grammar.Settled

namespace BoolQuery

open Grammar

/-- Wherever its tokens stand and its match may end, the tree is what its production comes to by
place. -/
def Tree.Met (place : Nat → Token) (t : Tree) : Prop :=
  ∀ k i, t.kind = .node k → StandAt place i t.tokens →
    ByPlace.EndsAt place k (i + t.tokens.length) →
    ByPlace.rule place k i = some (some ([t], i + t.tokens.length))

namespace ByPlace

open BoolQuery.Tree

variable {place : Nat → Token} {i : Nat}

/-- Where a node stands there is no token that its production cannot begin with. -/
theorem first_ne {t : Tree} {k : NodeKind} (h : t.IsDerivation) (hk : t.kind = .node k)
    (hs : StandAt place i t.tokens) {a : TokenKind} (ha : a ∉ firsts k) :
    (place i).kind ≠ .token a := by
  obtain ⟨u, us, b, hus, hu, hb⟩ := h.exists_first hk
  rw [hus] at hs
  obtain ⟨rfl, -⟩ := standAt_cons.1 hs
  intro hplace
  rw [hu] at hplace
  cases hplace
  exact ha hb

/-! ### Productions that miss -/

/-- A nonterminal misses where the body of its production does. -/
theorem steps_sub_miss {k : NodeKind} (h : body place (Grammar.body k) i = some none) :
    steps place [sub k] i = some none := by
  refine steps_cons_miss ?_
  rw [step_sub]
  exact rule_miss h

/-- Without its operator a marked word or phrase is missing. -/
theorem marked_miss {op : TokenKind} (h : (place i).kind ≠ .token op) :
    choice place [[tok op, tok .word], [tok op, tok .phrase]] i = some none := by
  rw [choice_cons_miss (steps_miss_first h), choice_cons_miss (steps_miss_first h), choice_nil]

/-- There is no `Exclusion` without its operator. -/
theorem exclusion_miss (h : (place i).kind ≠ .token .excludeOp) :
    steps place [sub .exclusion] i = some none :=
  steps_sub_miss (body_choice.trans (marked_miss h))

/-- There is no `Inclusion` without its operator. -/
theorem inclusion_miss (h : (place i).kind ≠ .token .includeOp) :
    steps place [sub .inclusion] i = some none :=
  steps_sub_miss (body_choice.trans (marked_miss h))

/-- There is no `PrefixTerm` where no star stands behind a word. -/
theorem prefixTerm_miss
    (h : (place i).kind = .token .word → (place (i + 1)).kind ≠ .token .starOp) :
    steps place [sub .prefixTerm] i = some none := by
  refine steps_sub_miss (body_choice.trans ?_)
  rw [choice_cons_miss (steps_miss_second h), choice_nil]

/-- There is no `PhraseOrWords` where neither a phrase nor a word stands. -/
theorem phraseOrWords_miss (hp : (place i).kind ≠ .token .phrase)
    (hw : (place i).kind ≠ .token .word) : steps place [sub .phraseOrWords] i = some none := by
  have hwords : steps place [sub .wordSequence] i = some none :=
    steps_sub_miss (body_repetition.trans (repetition_miss (steps_miss_first hw)))
  refine steps_sub_miss (body_choice.trans ?_)
  rw [choice_cons_miss (steps_miss_first hp), choice_cons_miss hwords, choice_nil]

/-! ### Productions that match -/

/-- A tree that is met is the one part of what matches by its production. -/
theorem steps_met {t : Tree} {k : NodeKind} (ht : t.Met place) (hk : t.kind = .node k)
    (hs : StandAt place i t.tokens) (he : EndsAt place k (i + t.tokens.length)) :
    step place (sub k) i = some (some ([t], i + t.tokens.length)) := by
  rw [step_sub]
  exact ht k i hk hs he

variable {ts : Forest}

/-- The words of a sequence are found, to the last one. -/
theorem wordSequence_met {n : Nat} (hd : ∀ t ∈ ts, t.IsDerivation)
    (hs : StandAt place i (forestTokens ts))
    (he : EndsAt place .wordSequence (i + (forestTokens ts).length))
    (hts : ts.map kind = chain (.token .word) [.token .whitespace] n) :
    body place (Grammar.body .wordSequence) i = some (some (ts, i + (forestTokens ts).length)) := by
  refine body_repetition.trans ?_
  refine repetition_of_chain (.token .word) [.whitespace] (fun _ => True) (fun _ _ _ _ => trivial)
    ?_ trivial hts hd ?_ hs
  · exact steps_miss_second fun hw => he.no_more hw .word (by decide)
  · intro t ht hk j hst _
    obtain ⟨u, rfl, hu⟩ := (hd t ht).eq_leaf hk
    obtain ⟨rfl, -⟩ := standAt_cons.1 hst
    exact step_token_hit hu

/-- What a `PhraseOrWords` is made of is found where it stands. -/
theorem phraseOrWords_met (hd : ∀ t ∈ ts, t.IsDerivation) (hmet : ∀ t ∈ ts, t.Met place)
    (hs : StandAt place i (forestTokens ts))
    (he : EndsAt place .phraseOrWords (i + (forestTokens ts).length))
    (hts : RightHandSide .phraseOrWords (ts.map kind)) :
    body place (Grammar.body .phraseOrWords) i =
      some (some (ts, i + (forestTokens ts).length)) := by
  refine body_choice.trans ?_
  generalize hks : ts.map kind = ks at hts
  cases hts with
  | phrase =>
    obtain ⟨t, rfl, ht⟩ := List.map_eq_singleton_iff.1 hks
    obtain ⟨u, rfl, hu⟩ := (hd t (.head _)).eq_leaf ht
    obtain ⟨rfl, -⟩ := standAt_cons.1 hs
    exact choice_cons_hit (steps_single_hit (step_token_hit hu))
  | words =>
    obtain ⟨t, rfl, ht⟩ := List.map_eq_singleton_iff.1 hks
    rw [forestTokens_singleton] at hs he ⊢
    have hphrase := first_ne (hd t (.head _)) ht hs (a := .phrase) (by decide)
    rw [choice_cons_miss (steps_miss_first hphrase)]
    have hends := he.mono (m := .wordSequence) (List.Subset.refl _) (by decide)
    exact choice_cons_hit (steps_single_hit (steps_met (hmet t (.head _)) ht hs hends))

/-- A word or a phrase behind an operator. -/
theorem marked_met {op k : TokenKind} (hk : k = .word ∨ k = .phrase)
    (hd : ∀ t ∈ ts, t.IsDerivation) (hs : StandAt place i (forestTokens ts))
    (hts : ts.map kind = [.token op, .token k]) :
    choice place [[tok op, tok .word], [tok op, tok .phrase]] i =
      some (some (ts, i + (forestTokens ts).length)) := by
  obtain ⟨us, rfl, hus⟩ := eq_map_leaf [op, k] hd hts
  rw [forestTokens_map_leaf] at hs ⊢
  have hhit := steps_tokens_hit hus hs steps_nil
  rw [List.append_nil, List.append_nil] at hhit
  rcases hk with rfl | rfl
  · exact choice_cons_hit hhit
  · refine (choice_cons_miss (steps_miss_second fun _ => ?_)).trans (choice_cons_hit hhit)
    rw [hs.kind_eq hus 1 (Nat.lt_succ_self 1)]
    exact nofun

/-- The word and the star of a `PrefixTerm` are found where they stand. -/
theorem prefixTerm_met (hd : ∀ t ∈ ts, t.IsDerivation) (hs : StandAt place i (forestTokens ts))
    (hts : ts.map kind = [.token .word, .token .starOp]) :
    body place (Grammar.body .prefixTerm) i = some (some (ts, i + (forestTokens ts).length)) := by
  obtain ⟨us, rfl, hus⟩ := eq_map_leaf [.word, .starOp] hd hts
  rw [forestTokens_map_leaf] at hs ⊢
  have hhit := steps_tokens_hit hus hs steps_nil
  rw [List.append_nil, List.append_nil] at hhit
  refine body_choice.trans ?_
  exact choice_cons_hit hhit

/-- A phrase or a single word is one token, and behind the first of several words stands
whitespace. -/
theorem second_of_plain {t : Tree} (ht : t.IsDerivation) (hk : t.kind = .node .phraseOrWords)
    (hs : StandAt place i t.tokens) :
    t.tokens.length = 1 ∨ (place (i + 1)).kind = .token .whitespace := by
  obtain ⟨f, rfl, hrhs, hf⟩ := ht.eq_node hk
  generalize hks : f.map kind = ks at hrhs
  cases hrhs with
  | phrase =>
    obtain ⟨u, rfl, hu⟩ := List.map_eq_singleton_iff.1 hks
    obtain ⟨u, rfl, -⟩ := (hf u (.head _)).eq_leaf hu
    exact .inl rfl
  | words =>
    obtain ⟨s, rfl, hs'⟩ := List.map_eq_singleton_iff.1 hks
    obtain ⟨g, rfl, hg, hdg⟩ := (hf s (.head _)).eq_node hs'
    rw [tokens_node, forestTokens_singleton, tokens_node] at hs ⊢
    generalize hgs : g.map kind = gs at hg
    cases hg with
    | wordSequence n =>
      cases n with
      | zero =>
        obtain ⟨us, rfl, hus⟩ := eq_map_leaf [.word] hdg hgs
        rw [forestTokens_map_leaf]
        obtain ⟨u, rfl, -⟩ := List.map_eq_singleton_iff.1 hus
        exact .inl rfl
      | succ n =>
        obtain ⟨w, g, rfl, hw, hgs⟩ := List.map_eq_cons_iff.1 hgs
        obtain ⟨b, g, rfl, hb, -⟩ := List.map_eq_cons_iff.1 hgs
        obtain ⟨w, rfl, -⟩ := (hdg w (by simp)).eq_leaf hw
        obtain ⟨b, rfl, hspace⟩ := (hdg b (by simp)).eq_leaf hb
        obtain ⟨-, hbehind⟩ := standAt_cons.1 hs
        obtain ⟨rfl, -⟩ := standAt_cons.1 hbehind
        exact .inr hspace

/-- Behind the first word of a phrase or of words stands no star, if none stands behind the last. -/
theorem second_ne_star {t : Tree} (ht : t.IsDerivation) (hk : t.kind = .node .phraseOrWords)
    (hs : StandAt place i t.tokens)
    (hstar : (place (i + t.tokens.length)).kind ≠ .token .starOp) :
    (place (i + 1)).kind ≠ .token .starOp := by
  rcases second_of_plain ht hk hs with hlen | hspace
  · rwa [hlen] at hstar
  · rw [hspace]
    decide

/-- Terms of one level, joined by a keyword between whitespace. -/
theorem joined_met {k m : NodeKind} {keyword : TokenKind} {n : Nat}
    (hd : ∀ t ∈ ts, t.IsDerivation) (hmet : ∀ t ∈ ts, t.Met place)
    (hs : StandAt place i (forestTokens ts)) (he : EndsAt place k (i + (forestTokens ts).length))
    (hsub : continuations m ⊆ continuations k) (hm : m ≠ .query)
    (hkm : keyword ∉ continuations m) (hkk : keyword ∈ continuations k)
    (hts : ts.map kind =
      chain (.node m) [.token .whitespace, .token keyword, .token .whitespace] n) :
    repetition place [sub m] [tok .whitespace, tok keyword, tok .whitespace, sub m] i =
      some (some (ts, i + (forestTokens ts).length)) := by
  refine repetition_of_chain (.node m) [.whitespace, keyword, .whitespace] (EndsAt place m)
    ?_ ?_ ?_ hts hd ?_ hs
  · intro j us hus hsus
    have hspace := hsus.kind_eq hus 0 (by simp)
    have hkeyword := hsus.kind_eq hus 1 (by simp)
    exact endsAt_of_space hspace hkeyword hkm hm
  · exact steps_miss_second fun hw => he.no_more hw keyword hkk
  · exact he.mono hsub hm
  · intro t ht hk j hst hends
    exact steps_met (hmet t ht) hk hst hends

/-- Whitespace that may be missing is passed over where there is none. -/
theorem step_no_space (h : (place i).kind ≠ .token .whitespace) :
    step place space? i = some (some ([], i)) :=
  step_optional_miss (steps_miss_first h)

/-- Whitespace that may be missing is taken where it stands, if no more of it follows. -/
theorem step_space {f : Forest} (hf : MaybeSpace (f.map kind)) (hd : ∀ t ∈ f, t.IsDerivation)
    (hs : StandAt place i (forestTokens f))
    (hnext : (place (i + (forestTokens f).length)).kind ≠ .token .whitespace) :
    step place space? i = some (some (f, i + (forestTokens f).length)) := by
  rcases eq_of_maybeSpace hf hd with rfl | ⟨u, rfl, hu⟩
  · exact step_no_space hnext
  · obtain ⟨rfl, -⟩ := standAt_cons.1 hs
    exact step_optional_hit (steps_single_hit (step_token_hit hu))

/-- A query takes the whitespace on both of its sides: its `OrTerm` begins with none, and may end in
front of whitespace that is followed by what closes the query. -/
theorem query_met (hd : ∀ t ∈ ts, t.IsDerivation) (hmet : ∀ t ∈ ts, t.Met place)
    (hs : StandAt place i (forestTokens ts))
    (he : EndsAt place .query (i + (forestTokens ts).length))
    (hts : RightHandSide .query (ts.map kind)) :
    body place (Grammar.body .query) i = some (some (ts, i + (forestTokens ts).length)) := by
  obtain ⟨f, r, g, rfl, hf, hr, hg⟩ := exists_query hts
  rw [List.forall_mem_append, List.forall_mem_cons] at hd hmet
  obtain ⟨hdf, hdr, hdg⟩ := hd
  have hclosed := he.closed rfl
  have hlen : i + (forestTokens (f ++ r :: g)).length =
      i + (forestTokens f).length + r.tokens.length + (forestTokens g).length := by
    rw [forestTokens_append, forestTokens_cons, List.length_append, List.length_append]
    omega
  rw [hlen] at hclosed ⊢
  rw [forestTokens_append, forestTokens_cons] at hs
  obtain ⟨hsf, hs⟩ := standAt_append.1 hs
  obtain ⟨hsr, hsg⟩ := standAt_append.1 hs
  have hbefore := step_space hf hdf hsf (first_ne hdr hr hsr (by decide))
  have hnext : (place (i + (forestTokens f).length + r.tokens.length +
      (forestTokens g).length)).kind ≠ .token .whitespace := by
    rcases hclosed with h | h <;> rw [h] <;> decide
  have hbehind := step_space hg hdg hsg hnext
  have hends : EndsAt place .orTerm (i + (forestTokens f).length + r.tokens.length) := by
    rcases eq_of_maybeSpace hg hdg with rfl | ⟨u, rfl, hu⟩
    · exact endsAt_of_closed hclosed
    · obtain ⟨rfl, -⟩ := standAt_cons.1 hsg
      exact endsAt_of_space_closed hu hclosed
  have hterm := steps_met hmet.2.1 hr hsr hends
  refine body_choice.trans ?_
  refine choice_cons_hit ?_
  have hhit := steps_cons_hit hbefore (steps_cons_hit hterm (steps_single_hit hbehind))
  rwa [List.singleton_append] at hhit

/-- A settled group is matched with its whitespace: the space behind the opening parenthesis is the
group's, and as its query takes the other one, nothing is left before the closing parenthesis. -/
theorem group_met {o c : Token} {f q : Forest} (ho : o.kind = .token .parenOpen)
    (hf : MaybeSpace (f.map kind)) (hc : c.kind = .token .parenClose)
    (hts : ts = .leaf o :: (f ++ [.node .query q, .leaf c])) (hd : ∀ t ∈ ts, t.IsDerivation)
    (hmet : ∀ t ∈ ts, t.Met place) (hsettled : GroupSettled ts)
    (hs : StandAt place i (forestTokens ts)) :
    steps place [tok .parenOpen, space?, sub .query, space?, tok .parenClose] i =
      some (some (ts, i + (forestTokens ts).length)) := by
  have hmem : Tree.node .query q ∈ ts := by simp [hts]
  have hdq := hd _ hmem
  have hmetq := hmet _ hmem
  have hfirst := hsettled.1 _ hmem rfl
  have hdf : ∀ t ∈ f, t.IsDerivation := fun t ht => hd t (by simp [hts, ht])
  have htokens : forestTokens ts = o :: (forestTokens f ++ (forestTokens q ++ [c])) := by
    rw [hts, forestTokens_cons, forestTokens_append, forestTokens_cons, forestTokens_singleton,
      tokens_leaf, tokens_leaf, tokens_node, List.singleton_append]
  have hlen : i + (forestTokens ts).length =
      i + 1 + (forestTokens f).length + (forestTokens q).length + 1 := by
    rw [htokens, List.length_cons, List.length_append, List.length_append, List.length_singleton]
    omega
  rw [htokens] at hs
  obtain ⟨hopen, hbehind⟩ := standAt_cons.1 hs
  obtain ⟨hsf, hbehind⟩ := standAt_append.1 hbehind
  obtain ⟨hsq, hbehind⟩ := standAt_append.1 hbehind
  obtain ⟨hclose, -⟩ := standAt_cons.1 hbehind
  rw [← hopen] at ho hts
  rw [← hclose] at hc hts
  have hinner : (place (i + 1 + (forestTokens f).length)).kind ≠ .token .whitespace := by
    obtain ⟨u, us, a, hus, -⟩ := hdq.exists_first rfl
    rw [hus] at hfirst
    rw [← tokens_node .query q, hus] at hsq
    rw [(standAt_cons.1 hsq).1]
    exact hfirst u rfl
  have houter : (place (i + 1 + (forestTokens f).length + (forestTokens q).length)).kind ≠
      .token .whitespace := by
    rw [hc]
    decide
  have hspace := step_space hf hdf hsf hinner
  have hquery := steps_met hmetq rfl hsq (endsAt_of_closed (.inl hc))
  have hnospace := step_no_space houter
  have hhit := steps_cons_hit (step_token_hit ho) (steps_cons_hit hspace (steps_cons_hit hquery
    (steps_cons_hit hnospace (steps_single_hit (step_token_hit hc)))))
  rw [hlen, hts]
  exact hhit

/-- The alternatives of a term that is no group, up to the right one: where the right one is a
phrase or words, no star may stand behind a first word. -/
theorem term_hit {t : Tree} {k : NodeKind} {f : Forest} {j : Nat} (ht : t.kind = .node k)
    (hd : t.IsDerivation) (hs : StandAt place i t.tokens)
    (hstar : k = .phraseOrWords → (place i).kind = .token .word →
      (place (i + 1)).kind ≠ .token .starOp)
    (hk : k ∈ [NodeKind.exclusion, .inclusion, .prefixTerm, .phraseOrWords])
    (hhit : steps place [sub k] i = some (some (f, j))) :
    body place (Grammar.body .term) i = some (some (f, j)) := by
  refine body_choice.trans ?_
  simp only [List.mem_cons, List.not_mem_nil, or_false] at hk
  rcases hk with rfl | rfl | rfl | rfl
  · exact choice_cons_hit hhit
  · have hfirst := first_ne hd ht hs (a := .excludeOp) (by decide)
    rw [choice_cons_miss (exclusion_miss hfirst)]
    exact choice_cons_hit hhit
  · have hexclude := first_ne hd ht hs (a := .excludeOp) (by decide)
    have hinclude := first_ne hd ht hs (a := .includeOp) (by decide)
    rw [choice_cons_miss (exclusion_miss hexclude), choice_cons_miss (inclusion_miss hinclude)]
    exact choice_cons_hit hhit
  · have hexclude := first_ne hd ht hs (a := .excludeOp) (by decide)
    have hinclude := first_ne hd ht hs (a := .includeOp) (by decide)
    rw [choice_cons_miss (exclusion_miss hexclude), choice_cons_miss (inclusion_miss hinclude),
      choice_cons_miss (prefixTerm_miss (hstar rfl))]
    exact choice_cons_hit hhit

/-- The alternatives of a term that is a group: the others miss at the parenthesis. -/
theorem term_group_hit {f : Forest} {j : Nat} (hopen : (place i).kind = .token .parenOpen)
    (hhit : steps place [tok .parenOpen, space?, sub .query, space?, tok .parenClose] i =
      some (some (f, j))) :
    body place (Grammar.body .term) i = some (some (f, j)) := by
  refine body_choice.trans ?_
  rw [choice_cons_miss (exclusion_miss (by rw [hopen]; decide)),
    choice_cons_miss (inclusion_miss (by rw [hopen]; decide)),
    choice_cons_miss (prefixTerm_miss fun h => by rw [hopen] at h; cases h),
    choice_cons_miss (phraseOrWords_miss (by rw [hopen]; decide) (by rw [hopen]; decide))]
  exact choice_cons_hit hhit

/-- A term that is no group is what its one part is met as. -/
theorem term_met {t : Tree} {k : NodeKind} (ht : t.kind = .node k) (hd : t.IsDerivation)
    (hmet : t.Met place) (hs : StandAt place i t.tokens)
    (he : EndsAt place .term (i + t.tokens.length))
    (hk : k ∈ [NodeKind.exclusion, .inclusion, .prefixTerm, .phraseOrWords]) :
    body place (Grammar.body .term) i = some (some ([t], i + t.tokens.length)) := by
  have hends : EndsAt place k (i + t.tokens.length) := by
    simp only [List.mem_cons, List.not_mem_nil, or_false] at hk
    rcases hk with rfl | rfl | rfl | rfl <;> exact he.mono (by decide) (by decide)
  refine term_hit ht hd hs ?_ hk (steps_single_hit (steps_met hmet ht hs hends))
  rintro rfl -
  exact second_ne_star hd ht hs he.no_star

/-- **Every right-hand side of settled parts is what the body of its production comes to.** -/
theorem body_met {k : NodeKind} (hts : RightHandSide k (ts.map kind))
    (hd : ∀ t ∈ ts, t.IsDerivation) (hmet : ∀ t ∈ ts, t.Met place)
    (hsettled : k = .term → GroupSettled ts) (hs : StandAt place i (forestTokens ts))
    (he : EndsAt place k (i + (forestTokens ts).length)) :
    body place (Grammar.body k) i = some (some (ts, i + (forestTokens ts).length)) := by
  have hone : ∀ l ∈ [NodeKind.exclusion, .inclusion, .prefixTerm, .phraseOrWords],
      k = .term → ts.map kind = [.node l] →
      body place (Grammar.body .term) i = some (some (ts, i + (forestTokens ts).length)) := by
    rintro l hl rfl hts
    obtain ⟨t, rfl, ht⟩ := List.map_eq_singleton_iff.1 hts
    rw [forestTokens_singleton] at hs he ⊢
    exact term_met ht (hd t (.head _)) (hmet t (.head _)) hs he hl
  have hall := hts
  generalize hks : ts.map kind = ks at hts
  cases hts with
  | wordSequence n => exact wordSequence_met hd hs he hks
  | phrase | words => exact phraseOrWords_met hd hmet hs he hall
  | excludeWord | includeWord => exact body_choice.trans (marked_met (.inl rfl) hd hs hks)
  | excludePhrase | includePhrase => exact body_choice.trans (marked_met (.inr rfl) hd hs hks)
  | prefixTerm => exact prefixTerm_met hd hs hks
  | exclusion | inclusion | prefixed | plain => exact hone _ (by decide) rfl hks
  | group hu hv =>
    obtain ⟨o, f, q, c, hts, ho, rfl, hc⟩ := exists_group_of_settled (hsettled rfl) hd hv hks
    have hhit := group_met ho hu hc hts hd hmet (hsettled rfl) hs
    have hopen : (place i).kind = .token .parenOpen := by
      rw [hts] at hs
      rw [(standAt_cons.1 hs).1, ho]
    exact term_group_hit hopen hhit
  | andTerm n =>
    exact body_repetition.trans
      (joined_met hd hmet hs he (by decide) (by decide) (by decide) (by decide) hks)
  | orTerm n =>
    exact body_repetition.trans
      (joined_met hd hmet hs he (by decide) (by decide) (by decide) (by decide) hks)
  | query _ _ => exact query_met hd hmet hs he hall

end ByPlace

/-- **Every settled derivation tree is found** where its tokens stand and its match may end. -/
theorem Tree.IsDerivation.met {place : Nat → Token} {t : Tree} (h : t.IsDerivation)
    (hsettled : t.Settled) : t.Met place := by
  induction h with
  | leaf hl =>
    intro k i hk
    rw [Tree.kind, hl] at hk
    cases hk
  | @node l ts hrhs hts ih =>
    intro k i hk hs he
    obtain rfl : l = k := by
      cases hk
      rfl
    have hparts := hsettled.parts
    rw [Tree.tokens_node] at hs he ⊢
    refine ByPlace.rule_hit (ByPlace.body_met hrhs hts (fun t ht => ih t ht (hparts t ht)) ?_ hs he)
    rintro rfl
    exact hsettled.group

end BoolQuery
