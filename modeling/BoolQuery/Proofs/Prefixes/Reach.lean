/-
# A match reaches as far as any derivation

Where the tokens of a settled derivation stand its production matches, whatever stands behind them,
and the match ends no earlier than they do. What stands behind an item of a chain that is not the
last one ends its match, so all items but the last are matched as they are. The last one is matched
at least as far, and behind it the tails only go further. A term may also be matched as another one:
a word in front of a star, which is then taken too.
-/

import BoolQuery.Proofs.Acceptance

namespace BoolQuery

open Grammar

/-- Wherever its tokens stand, the production of the tree matches and ends no earlier than they
do. -/
def Tree.Reached (place : Nat → Token) (t : Tree) : Prop :=
  ∀ k i, t.kind = .node k → StandAt place i t.tokens →
    ∃ f j, ByPlace.rule place k i = some (some (f, j)) ∧ i + t.tokens.length ≤ j

namespace ByPlace

open BoolQuery.Tree

variable {place : Nat → Token} {i : Nat} {ts : Forest}

/-- Tails that begin with whitespace are repeated only so often. -/
def TailsEnd (place : Nat → Token) : Prop :=
  ∀ ds i, AllWellFormed ds →
    ∃ f j, tails place (tok .whitespace :: ds) i = some (f, j) ∧ i ≤ j

/-! ### Chains -/

section

variable {d : Designator} (item : Kind) (between : List TokenKind) (ends : Nat → Prop)

/-- An item and the items behind it, matched as far as they reach: each one but the last may end in
front of what stands between it and the next. -/
theorem items_reached {n : Nat} {t : Tree} {g : Forest}
    (htails : ∀ j, ∃ f l, tails place (between.map tok ++ [d]) j = some (f, l) ∧ j ≤ l)
    (hbetween : ∀ j us, us.map Token.kind = between.map Kind.token → StandAt place j us → ends j)
    (hexact : ∀ u ∈ t :: g, u.kind = item → ∀ j, StandAt place j u.tokens →
      ends (j + u.tokens.length) → step place d j = some (some ([u], j + u.tokens.length)))
    (hreach : ∀ u ∈ t :: g, u.kind = item → ∀ j, StandAt place j u.tokens →
      ∃ f l, step place d j = some (some (f, l)) ∧ j + u.tokens.length ≤ l)
    (ht : t.kind = item)
    (hg : g.map kind = (List.replicate n (between.map Kind.token ++ [item])).flatten)
    (hd : ∀ u ∈ g, u.IsDerivation) (hs : StandAt place i (forestTokens (t :: g))) :
    ∃ f l h j, step place d i = some (some (f, l)) ∧
      tails place (between.map tok ++ [d]) l = some (h, j) ∧
      i + (forestTokens (t :: g)).length ≤ j := by
  induction n generalizing t g i with
  | zero =>
    obtain rfl := List.map_eq_nil_iff.1 hg
    rw [forestTokens_singleton] at hs ⊢
    obtain ⟨f, l, hstep, hl⟩ := hreach t (.head _) ht i hs
    obtain ⟨h, j, hrest, hj⟩ := htails l
    exact ⟨f, l, h, j, hstep, hrest, hl.trans hj⟩
  | succ n ih =>
    rw [List.replicate_succ, List.flatten_cons, List.append_assoc] at hg
    obtain ⟨bs, rest, rfl, hbs, hrest⟩ := List.map_eq_append_iff.1 hg
    obtain ⟨u, g, rfl, hu, hrest⟩ := List.map_eq_cons_iff.1 hrest
    rw [List.forall_mem_append, List.forall_mem_cons] at hd
    obtain ⟨us, rfl, hus⟩ := eq_map_leaf between hd.1 hbs
    rw [forestTokens_cons, forestTokens_append, forestTokens_map_leaf] at hs ⊢
    obtain ⟨hst, hs⟩ := standAt_append.1 hs
    obtain ⟨hsus, hsu⟩ := standAt_append.1 hs
    have hmem : ∀ v ∈ u :: g, v ∈ t :: (us.map leaf ++ u :: g) :=
      fun v hv => .tail _ (List.mem_append_right _ hv)
    obtain ⟨f, l, h, j, hstep, htl, hj⟩ := ih (fun v hv => hexact v (hmem v hv))
      (fun v hv => hreach v (hmem v hv)) hu hrest hd.2.2 hsu
    -- In front of what stands between, the first item ends where its tree does.
    have hfirst := hexact t (.head _) ht i hst (hbetween _ us hus hsus)
    refine ⟨[t], _, us.map leaf ++ f ++ h, j, hfirst, ?_, ?_⟩
    · exact tails_more (steps_tokens_hit hus hsus (steps_single_hit hstep)) htl
    · rw [List.length_append, List.length_append]
      omega

/-- A chain is matched as far as it reaches. -/
theorem repetition_reached {n : Nat}
    (htails : ∀ j, ∃ f l, tails place (between.map tok ++ [d]) j = some (f, l) ∧ j ≤ l)
    (hbetween : ∀ j us, us.map Token.kind = between.map Kind.token → StandAt place j us → ends j)
    (hexact : ∀ u ∈ ts, u.kind = item → ∀ j, StandAt place j u.tokens →
      ends (j + u.tokens.length) → step place d j = some (some ([u], j + u.tokens.length)))
    (hreach : ∀ u ∈ ts, u.kind = item → ∀ j, StandAt place j u.tokens →
      ∃ f l, step place d j = some (some (f, l)) ∧ j + u.tokens.length ≤ l)
    (hts : ts.map kind = chain item (between.map Kind.token) n) (hd : ∀ u ∈ ts, u.IsDerivation)
    (hs : StandAt place i (forestTokens ts)) :
    ∃ f j, repetition place [d] (between.map tok ++ [d]) i = some (some (f, j)) ∧
      i + (forestTokens ts).length ≤ j := by
  obtain ⟨t, g, rfl, ht, hg⟩ := List.map_eq_cons_iff.1 hts
  obtain ⟨f, l, h, j, hstep, hrest, hj⟩ := items_reached item between ends htails hbetween hexact
    hreach ht hg (fun u hu => hd u (.tail _ hu)) hs
  exact ⟨_, j, repetition_hit (steps_single_hit hstep) hrest, hj⟩

end

/-! ### The productions -/

/-- One production that reaches far enough. -/
theorem steps_reached {t : Tree} {k : NodeKind} (ht : t.Reached place) (hk : t.kind = .node k)
    (hs : StandAt place i t.tokens) :
    ∃ f j, steps place [sub k] i = some (some (f, j)) ∧ i + t.tokens.length ≤ j := by
  obtain ⟨f, j, hrule, hj⟩ := ht k i hk hs
  exact ⟨f, j, steps_single_hit ((step_sub k).trans hrule), hj⟩

/-- A sequence of words is matched as far as its tokens stand, or further. -/
theorem wordSequence_reached {n : Nat} (htails : TailsEnd place) (hd : ∀ t ∈ ts, t.IsDerivation)
    (hs : StandAt place i (forestTokens ts))
    (hts : ts.map kind = chain (.token .word) [.token .whitespace] n) :
    ∃ f j, body place (Grammar.body .wordSequence) i = some (some (f, j)) ∧
      i + (forestTokens ts).length ≤ j := by
  have hword : ∀ t ∈ ts, t.kind = .token .word → ∀ j, StandAt place j t.tokens →
      step place (tok .word) j = some (some ([t], j + t.tokens.length)) := by
    intro t ht hk j hst
    obtain ⟨u, rfl, hu⟩ := (hd t ht).eq_leaf hk
    obtain ⟨rfl, -⟩ := standAt_cons.1 hst
    exact step_token_hit hu
  obtain ⟨f, j, hrep, hj⟩ := repetition_reached (.token .word) [.whitespace] (fun _ => True)
    (fun j => htails [tok .word] j ⟨rfl, trivial⟩) (fun _ _ _ _ => trivial)
    (fun t ht hk j hst _ => hword t ht hk j hst)
    (fun t ht hk j hst => ⟨_, _, hword t ht hk j hst, Nat.le_refl _⟩) hts hd hs
  exact ⟨f, j, body_repetition.trans hrep, hj⟩

/-- A `PhraseOrWords` is matched as far as its tokens stand, or further. -/
theorem phraseOrWords_reached (hd : ∀ t ∈ ts, t.IsDerivation)
    (hreach : ∀ t ∈ ts, t.Reached place) (hs : StandAt place i (forestTokens ts))
    (hts : RightHandSide .phraseOrWords (ts.map kind)) :
    ∃ f j, body place (Grammar.body .phraseOrWords) i = some (some (f, j)) ∧
      i + (forestTokens ts).length ≤ j := by
  generalize hks : ts.map kind = ks at hts
  cases hts with
  | phrase =>
    obtain ⟨t, rfl, ht⟩ := List.map_eq_singleton_iff.1 hks
    obtain ⟨u, rfl, hu⟩ := (hd t (.head _)).eq_leaf ht
    obtain ⟨rfl, -⟩ := standAt_cons.1 hs
    exact ⟨_, _, body_choice.trans (choice_cons_hit (steps_single_hit (step_token_hit hu))),
      Nat.le_refl _⟩
  | words =>
    obtain ⟨t, rfl, ht⟩ := List.map_eq_singleton_iff.1 hks
    rw [forestTokens_singleton] at hs ⊢
    have hphrase := first_ne (hd t (.head _)) ht hs (a := .phrase) (by decide)
    obtain ⟨f, j, hwords, hj⟩ := steps_reached (hreach t (.head _)) ht hs
    refine ⟨f, j, body_choice.trans ?_, hj⟩
    rw [choice_cons_miss (steps_miss_first hphrase)]
    exact choice_cons_hit hwords

/-- A term that is no group is reached by the alternative that it is, or as a word in front of a
star. -/
theorem term_reached {t : Tree} {k : NodeKind} (ht : t.kind = .node k) (hd : t.IsDerivation)
    (hreach : t.Reached place) (hs : StandAt place i t.tokens)
    (hk : k ∈ [NodeKind.exclusion, .inclusion, .prefixTerm, .phraseOrWords]) :
    ∃ f j, body place (Grammar.body .term) i = some (some (f, j)) ∧ i + t.tokens.length ≤ j := by
  by_cases hstar : k = .phraseOrWords ∧ (place i).kind = .token .word ∧
      (place (i + 1)).kind = .token .starOp
  · obtain ⟨rfl, hword, hstar⟩ := hstar
    have hlen : t.tokens.length = 1 := by
      rcases second_of_plain hd ht hs with hlen | hspace
      · exact hlen
      · rw [hstar] at hspace
        cases hspace
    have hstarred : rule place .prefixTerm i =
        some (some ([.node .prefixTerm [.leaf (place i), .leaf (place (i + 1))]], i + 1 + 1)) :=
      rule_hit (body_choice.trans (choice_cons_hit
        (steps_cons_hit (step_token_hit hword) (steps_single_hit (step_token_hit hstar)))))
    have hexclude := first_ne hd ht hs (a := .excludeOp) (by decide)
    have hinclude := first_ne hd ht hs (a := .includeOp) (by decide)
    refine ⟨[.node .prefixTerm [.leaf (place i), .leaf (place (i + 1))]], i + 1 + 1,
      body_choice.trans ?_, by omega⟩
    rw [choice_cons_miss (exclusion_miss hexclude), choice_cons_miss (inclusion_miss hinclude)]
    exact choice_cons_hit (steps_single_hit ((step_sub _).trans hstarred))
  · obtain ⟨f, j, hhit, hj⟩ := steps_reached hreach ht hs
    exact ⟨f, j, term_hit ht hd hs (fun hplain hword hs => hstar ⟨hplain, hword, hs⟩) hk hhit, hj⟩

/-- Terms of one level, joined by a keyword between whitespace, are matched as far as they reach. -/
theorem joined_reached {m : NodeKind} {keyword : TokenKind} {n : Nat} (htails : TailsEnd place)
    (hd : ∀ t ∈ ts, t.IsDerivation) (hmet : ∀ t ∈ ts, t.Met place)
    (hreach : ∀ t ∈ ts, t.Reached place) (hs : StandAt place i (forestTokens ts))
    (hm : m ≠ .query) (hkm : keyword ∉ continuations m)
    (hts : ts.map kind =
      chain (.node m) [.token .whitespace, .token keyword, .token .whitespace] n) :
    ∃ f j, repetition place [sub m] [tok .whitespace, tok keyword, tok .whitespace, sub m] i =
      some (some (f, j)) ∧ i + (forestTokens ts).length ≤ j := by
  refine repetition_reached (.node m) [.whitespace, keyword, .whitespace] (EndsAt place m)
    (fun j => htails [tok keyword, tok .whitespace, sub m] j ⟨rfl, rfl, rfl, trivial⟩)
    ?_ ?_ ?_ hts hd hs
  · intro j us hus hsus
    exact endsAt_of_space (hsus.kind_eq hus 0 (by simp)) (hsus.kind_eq hus 1 (by simp)) hkm hm
  · intro t ht hk j hst hends
    exact steps_met (hmet t ht) hk hst hends
  · intro t ht hk j hst
    obtain ⟨f, l, hrule, hl⟩ := hreach t ht m j hk hst
    exact ⟨f, l, (step_sub m).trans hrule, hl⟩

/-- A query is matched as far as it reaches: if its `OrTerm` ends where it should, the whitespace
behind it is taken, and if it ends later, it took that whitespace itself. -/
theorem query_reached (hd : ∀ t ∈ ts, t.IsDerivation) (hreach : ∀ t ∈ ts, t.Reached place)
    (hs : StandAt place i (forestTokens ts)) (hts : RightHandSide .query (ts.map kind)) :
    ∃ f j, body place (Grammar.body .query) i = some (some (f, j)) ∧
      i + (forestTokens ts).length ≤ j := by
  obtain ⟨f, r, g, rfl, hf, hr, hg⟩ := exists_query hts
  rw [List.forall_mem_append, List.forall_mem_cons] at hd hreach
  obtain ⟨hdf, hdr, hdg⟩ := hd
  rw [forestTokens_append, forestTokens_cons] at hs ⊢
  obtain ⟨hsf, hs⟩ := standAt_append.1 hs
  obtain ⟨hsr, hsg⟩ := standAt_append.1 hs
  have hbefore := step_space hf hdf hsf (first_ne hdr hr hsr (by decide))
  obtain ⟨h, l, hrule, hl⟩ := hreach.2.1 .orTerm _ hr hsr
  have hterm := (step_sub .orTerm).trans hrule
  have hbehind : ∃ v j, step place space? l = some (some (v, j)) ∧
      i + (forestTokens f).length + r.tokens.length + (forestTokens g).length ≤ j := by
    by_cases hw : (place l).kind = .token .whitespace
    · refine ⟨_, _, step_optional_hit (steps_single_hit (step_token_hit hw)), ?_⟩
      rcases eq_of_maybeSpace hg hdg with rfl | ⟨u, rfl, -⟩
      · rw [forestTokens_nil, List.length_nil]
        omega
      · rw [forestTokens_singleton, tokens_leaf, List.length_singleton]
        omega
    · refine ⟨_, _, step_no_space hw, ?_⟩
      rcases eq_of_maybeSpace hg hdg with rfl | ⟨u, rfl, hu⟩
      · simpa using hl
      · -- The whitespace stands there, so the `OrTerm` did not end in front of it.
        have hne : l ≠ i + (forestTokens f).length + r.tokens.length := by
          rintro rfl
          rw [(standAt_cons.1 hsg).1] at hw
          exact hw hu
        rw [forestTokens_singleton, tokens_leaf, List.length_singleton]
        omega
  obtain ⟨v, j, hspace, hj⟩ := hbehind
  have hhit := steps_cons_hit hbefore (steps_cons_hit hterm (steps_single_hit hspace))
  refine ⟨_, j, body_choice.trans (choice_cons_hit hhit), ?_⟩
  rw [List.length_append, List.length_append]
  omega

/-- **Every right-hand side of settled parts is reached** by the body of its production. -/
theorem body_reached {k : NodeKind} (htails : TailsEnd place)
    (hts : RightHandSide k (ts.map kind)) (hd : ∀ t ∈ ts, t.IsDerivation)
    (hmet : ∀ t ∈ ts, t.Met place) (hreach : ∀ t ∈ ts, t.Reached place)
    (hsettled : k = .term → GroupSettled ts) (hs : StandAt place i (forestTokens ts)) :
    ∃ f j, body place (Grammar.body k) i = some (some (f, j)) ∧
      i + (forestTokens ts).length ≤ j := by
  have hexact : ∀ f, body place (Grammar.body k) i =
      some (some (f, i + (forestTokens ts).length)) →
      ∃ f j, body place (Grammar.body k) i = some (some (f, j)) ∧
        i + (forestTokens ts).length ≤ j := fun f h => ⟨f, _, h, Nat.le_refl _⟩
  have hone : ∀ l ∈ [NodeKind.exclusion, .inclusion, .prefixTerm, .phraseOrWords],
      ts.map kind = [.node l] → ∃ f j, body place (Grammar.body .term) i = some (some (f, j)) ∧
        i + (forestTokens ts).length ≤ j := by
    intro l hl hts
    obtain ⟨t, rfl, ht⟩ := List.map_eq_singleton_iff.1 hts
    rw [forestTokens_singleton] at hs ⊢
    exact term_reached ht (hd t (.head _)) (hreach t (.head _)) hs hl
  have hall := hts
  generalize hks : ts.map kind = ks at hts
  cases hts with
  | wordSequence n => exact wordSequence_reached htails hd hs hks
  | phrase | words => exact phraseOrWords_reached hd hreach hs hall
  | excludeWord | includeWord =>
    exact hexact _ (body_choice.trans (marked_met (.inl rfl) hd hs hks))
  | excludePhrase | includePhrase =>
    exact hexact _ (body_choice.trans (marked_met (.inr rfl) hd hs hks))
  | prefixTerm => exact hexact _ (prefixTerm_met hd hs hks)
  | exclusion | inclusion | prefixed | plain => exact hone _ (by decide) hks
  | group hu hv =>
    obtain ⟨o, f, q, c, hts, ho, rfl, hc⟩ := exists_group_of_settled (hsettled rfl) hd hv hks
    have hopen : (place i).kind = .token .parenOpen := by
      rw [hts] at hs
      rw [(standAt_cons.1 hs).1, ho]
    exact hexact _ (term_group_hit hopen (group_met ho hu hc hts hd hmet (hsettled rfl) hs))
  | andTerm n =>
    obtain ⟨f, j, hrep, hj⟩ :=
      joined_reached htails hd hmet hreach hs (by decide) (by decide) hks
    exact ⟨f, j, body_repetition.trans hrep, hj⟩
  | orTerm n =>
    obtain ⟨f, j, hrep, hj⟩ :=
      joined_reached htails hd hmet hreach hs (by decide) (by decide) hks
    exact ⟨f, j, body_repetition.trans hrep, hj⟩
  | query _ _ => exact query_reached hd hreach hs hall

end ByPlace

/-- **Every settled derivation tree is reached** where its tokens stand, whatever stands behind
them. -/
theorem Tree.IsDerivation.reached {place : Nat → Token} {t : Tree} (htails : ByPlace.TailsEnd place)
    (h : t.IsDerivation) (hsettled : t.Settled) : t.Reached place := by
  induction h with
  | leaf hl =>
    intro k i hk
    rw [Tree.kind, hl] at hk
    cases hk
  | @node l ts hrhs hts ih =>
    intro k i hk hs
    obtain rfl : l = k := by
      cases hk
      rfl
    have hparts := hsettled.parts
    rw [Tree.tokens_node] at hs ⊢
    obtain ⟨f, j, hbody, hj⟩ := ByPlace.body_reached htails hrhs hts
      (fun t ht => (hts t ht).met (hparts t ht)) (fun t ht => ih t ht (hparts t ht))
      (by rintro rfl; exact hsettled.group) hs
    exact ⟨_, j, ByPlace.rule_hit hbody, hj⟩

end BoolQuery
