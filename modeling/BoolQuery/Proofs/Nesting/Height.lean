/-
# The limit that a line needs

A tree is as high as the longest way down from its root has nodes. The productions on that way are
open at once when the last of them is matched, so a run has at least as many open as its tree is
high. It has no more where the match may end: the alternatives that miss in front of the right one
are flat, and a tail that begins is either part of the tree or ruled out by what stands behind it.

Where a line is rejected the tree does not tell. There the parentheses do: each group that is open
costs four productions, and six more are those of a query without groups.
-/

import BoolQuery.Proofs.ByPlace.CourseOfRun
import BoolQuery.Proofs.Nesting.Limit
import BoolQuery.Proofs.Nesting.Within

namespace BoolQuery

open Grammar Recognizer

namespace Tree

mutual

/-- The number of nodes on the longest way down from the root. A token is no node. -/
def height : Tree → Nat
  | leaf _ => 0
  | node _ ts => forestHeight ts + 1

/-- The height of the highest tree. -/
def forestHeight : Forest → Nat
  | [] => 0
  | t :: ts => max (height t) (forestHeight ts)

end

@[simp] theorem height_leaf (t : Token) : (leaf t).height = 0 := by rw [height]

@[simp] theorem height_node (k : NodeKind) (ts : Forest) :
    (node k ts).height = forestHeight ts + 1 := by rw [height]

@[simp] theorem forestHeight_nil : forestHeight [] = 0 := by rw [forestHeight]

@[simp] theorem forestHeight_cons (t : Tree) (ts : Forest) :
    forestHeight (t :: ts) = max t.height (forestHeight ts) := by rw [forestHeight]

@[simp] theorem forestHeight_append (f g : Forest) :
    forestHeight (f ++ g) = max (forestHeight f) (forestHeight g) := by
  induction f with
  | nil => rw [List.nil_append, forestHeight_nil, Nat.zero_max]
  | cons t f ih => rw [List.cons_append, forestHeight_cons, forestHeight_cons, ih, Nat.max_assoc]

/-- A single tree is as high as it stands in a forest. -/
theorem forestHeight_singleton (t : Tree) : forestHeight [t] = t.height := by
  rw [forestHeight_cons, forestHeight_nil, Nat.max_zero]

/-- No tree of a forest is higher than the forest. -/
theorem height_le_of_mem {t : Tree} {f : Forest} (h : t ∈ f) : t.height ≤ forestHeight f := by
  induction h with
  | head =>
    rw [forestHeight_cons]
    exact Nat.le_max_left ..
  | tail _ _ ih =>
    rw [forestHeight_cons]
    omega

end Tree

namespace ByPlace

open BoolQuery.Tree
open RecognizerM (rank)

namespace Course

variable {place : Nat → Token} {i j l n : Nat} {f : Forest} {ns : List Note}

/-- **The productions of a tree are open at once**, those of its longest way down. -/
theorem height_le {g : Goal} {o : Outcome} (h : Course place g i o ns) :
    ∀ f j, o = some (f, j) → forestHeight f ≤ nesting (Note.events ns) := by
  induction h with
  | token_hit _ =>
    rintro f j ⟨⟩
    simp
  | token_miss _ | steps_miss _ | steps_behind _ _ | choice_nil | repetition_miss _
  | rule_miss _ => exact nofun
  | sub _ ih | optional_hit _ ih | choice_hit _ ih => exact ih
  | optional_miss _ _ | steps_nil | tails_stop _ _ =>
    rintro f j ⟨⟩
    simp
  | choice_next h _ _ ih =>
    intro f j hsome
    have hrest := ih f j hsome
    rw [h.nesting_append]
    omega
  | steps_hit h _ ih ih' | tails_more h _ ih ih' | repetition_hit h _ ih ih' =>
    rintro f j ⟨⟩
    have hfirst := ih _ _ rfl
    have hrest := ih' _ _ rfl
    rw [forestHeight_append, h.nesting_append]
    omega
  | rule_hit h ih =>
    rintro f j ⟨⟩
    have hbody := ih _ _ rfl
    rw [forestHeight_singleton, height_node, Note.events_around, nesting_around h.level]
    omega

/-! ### No more than the tree is high -/

/-- A flat production has no more productions open than its rank says. -/
theorem nesting_le_rank {k : NodeKind} {o : Outcome} (hk : rank k ≤ 2)
    (h : Course place (.rule k) i o ns) : nesting (Note.events ns) ≤ rank k :=
  (flat_within hk i o ns h trivial).1

/-- A flat production that matches has no more productions open than its tree is high. -/
theorem flat_nesting_le {k : NodeKind} {t : Tree} (hk : rank k ≤ 2)
    (h : Course place (.rule k) i (some ([t], j)) ns) (ht : t.height ≤ n) :
    nesting (Note.events ns) ≤ n := by
  have hns := nesting_le_rank hk h
  cases h with
  | @rule_hit _ _ _ f ms hbody =>
    rw [height_node] at ht
    by_cases hone : rank k = 1
    · omega
    obtain rfl : k = .phraseOrWords := by
      cases k with
      | phraseOrWords => rfl
      | _ => first | exact absurd rfl hone | simp only [rank] at hk; omega
    rcases of_choice_cons hbody with hphrase | ⟨us, vs, -, hwords, -⟩
    · rcases hphrase.of_token with ⟨-, hnone, -⟩ | ⟨-, o, hend, -⟩
      · cases hnone
      · cases hend
        have hlevel : Level [] := rfl
        rw [Note.events_around, Note.events_nil, nesting_around hlevel]
        exact Nat.le_trans (Nat.succ_le_succ (Nat.zero_le _)) ht
    · obtain ⟨g, rfl, -⟩ := hwords.of_single.of_sub_hit
      rw [forestHeight_singleton, height_node] at ht
      simp only [rank] at hns
      omega

/-- The alternatives of a term in front of the right one are flat. -/
theorem of_term_hit (h : Course place (.ofBody (Grammar.body .term)) i (some (f, j)) ns) :
    ∃ us ms, nesting (Note.events ns) = max us (nesting (Note.events ms)) ∧
      ((us ≤ 1 ∧ ∃ m, rank m ≤ 2 ∧ Course place (.steps [] [Grammar.sub m]) i (some (f, j)) ms) ∨
        us ≤ 2 ∧ Course place (.steps [] groupSteps) i (some (f, j)) ms) := by
  rcases of_choice_cons h with h | ⟨us₁, ms₁, hmiss₁, h, hns₁⟩
  · exact ⟨0, ns, by omega, .inl ⟨by omega, _, by decide, h⟩⟩
  have hus₁ := nesting_le_rank (by decide) hmiss₁.of_sub_miss
  rcases of_choice_cons h with h | ⟨us₂, ms₂, hmiss₂, h, hns₂⟩
  · exact ⟨_, ms₁, hns₁, .inl ⟨hus₁, _, by decide, h⟩⟩
  have hus₂ := nesting_le_rank (by decide) hmiss₂.of_sub_miss
  rcases of_choice_cons h with h | ⟨us₃, ms₃, hmiss₃, h, hns₃⟩
  · rw [hns₁, hns₂, ← Nat.max_assoc]
    exact ⟨_, ms₂, rfl, .inl ⟨by simp only [rank] at hus₁ hus₂; omega, _, by decide, h⟩⟩
  have hus₃ := nesting_le_rank (by decide) hmiss₃.of_sub_miss
  simp only [rank] at hus₁ hus₂ hus₃
  rcases of_choice_cons h with h | ⟨us₄, ms₄, hmiss₄, h, hns₄⟩
  · rw [hns₁, hns₂, hns₃, ← Nat.max_assoc, ← Nat.max_assoc]
    exact ⟨_, ms₃, rfl, .inl ⟨by omega, _, by decide, h⟩⟩
  have hus₄ := nesting_le_rank (by decide) hmiss₄.of_sub_miss
  simp only [rank] at hus₄
  rw [hns₁, hns₂, hns₃, hns₄, ← Nat.max_assoc, ← Nat.max_assoc, ← Nat.max_assoc]
  exact ⟨_, ms₄, rfl, .inr ⟨by omega, h.of_single⟩⟩

section

variable (hitem : ∀ k i t j ns, Course place (.rule k) i (some ([t], j)) ns → EndsAt place k j →
  t.height ≤ n → nesting (Note.events ns) ≤ n)

include hitem

/-- The tails of a chain have no more productions open than their trees are high, if no further tail
begins behind them. -/
theorem tails_nesting_le {m : NodeKind} {keyword : TokenKind} (hm : m ≠ .query)
    (hkm : keyword ∉ continuations m)
    (h : Course place (.tails [tok .whitespace, tok keyword, tok .whitespace, Grammar.sub m]) i
      (some (f, l)) ns)
    (hstop : (place l).kind = .token .whitespace → (place (l + 1)).kind ≠ .token keyword)
    (hends : EndsAt place m l) (hf : forestHeight f ≤ n) :
    EndsAt place m i ∧ nesting (Note.events ns) ≤ n := by
  generalize hg : Goal.tails _ = g at h
  generalize ho : some (f, l) = o at h
  induction h generalizing f with
  | tails_stop h =>
    cases hg
    cases ho
    rcases h.of_joining with ⟨-, hstill⟩ | ⟨hw, hkeyword, -, -⟩
    · rw [hstill.nesting]
      exact ⟨hends, Nat.zero_le n⟩
    · exact absurd hkeyword (hstop hw)
  | tails_more h _ _ ih =>
    cases hg
    cases ho
    rcases h.of_joining with ⟨hnone, -⟩ | ⟨hw, hkeyword, -, hitem'⟩
    · cases hnone
    rcases hitem' with ⟨_, _, -, hnone, -⟩ | ⟨f', j', hm', hsome⟩
    · cases hnone
    · cases hsome
      simp only [forestHeight_append, forestHeight_cons, forestHeight_nil, height_leaf] at hf
      obtain ⟨hmid, hrest⟩ := ih (by omega) rfl rfl
      have hns := hitem m _ _ _ _ hm' hmid (by omega)
      rw [h.nesting_append]
      exact ⟨endsAt_of_space hw hkeyword hkm hm, by omega⟩
  | _ => cases hg

/-- The same of terms of one level, joined by a keyword between whitespace. -/
theorem joined_nesting_le {k m : NodeKind} {keyword : TokenKind}
    (h : Course place (.repetition [Grammar.sub m]
      [tok .whitespace, tok keyword, tok .whitespace, Grammar.sub m]) i (some (f, l)) ns)
    (he : EndsAt place k l) (hsub : continuations m ⊆ continuations k) (hm : m ≠ .query)
    (hkm : keyword ∉ continuations m) (hkk : keyword ∈ continuations k)
    (hf : forestHeight f ≤ n) : nesting (Note.events ns) ≤ n := by
  cases h with
  | repetition_hit h hrest =>
    obtain ⟨g, rfl, hfirst⟩ := h.of_sub_hit
    rw [forestHeight_append, forestHeight_singleton] at hf
    obtain ⟨hmid, hns⟩ := tails_nesting_le hitem hm hkm hrest
      (fun hw => he.no_more hw keyword hkk) (he.mono hsub hm) (by omega)
    have hms := hitem m _ _ _ _ hfirst hmid (by omega)
    rw [h.nesting_append]
    omega

/-- The same of a query: it takes the whitespace on both sides, so its `OrTerm` may end in front of
it. -/
theorem query_nesting_le {t : Tree} (h : Course place (.rule .query) i (some ([t], l)) ns)
    (he : EndsAt place .query l) (ht : t.height ≤ n + 1) : nesting (Note.events ns) ≤ n + 1 := by
  obtain ⟨j, o, ms, ks, f, -, hr, hks, hns, hhit⟩ := h.of_query
  obtain ⟨g, r, m, rfl, rfl, hmem, hend⟩ := hhit t l rfl
  have hclosed := he.closed rfl
  have hends : EndsAt place .orTerm m := by
    rcases hend with ⟨hw, rfl⟩ | ⟨-, rfl⟩
    · exact endsAt_of_space_closed hw hclosed
    · exact endsAt_of_closed hclosed
  rw [height_node] at ht
  have hheight := height_le_of_mem hmem
  have hms := hitem .orTerm _ _ _ _ hr hends (by omega)
  have hlevel : Level (Note.events (ms ++ ks)) := by
    rw [Note.events_append]
    exact hr.level.append hks.level
  rw [hns, nesting_around hlevel, hr.nesting_append, hks.nesting]
  omega

/-- The same of a group: no whitespace is left between its query and the closing parenthesis. -/
theorem group_nesting_le
    (hspaced : ∀ i, (place i).kind = .token .whitespace → (place (i + 1)).kind ≠ .token .whitespace)
    (h : Course place (.steps [] groupSteps) i (some (f, l)) ns) (hf : forestHeight f ≤ n) :
    2 ≤ n ∧ nesting (Note.events ns) ≤ n := by
  rcases h.of_group with ⟨-, hnone, -⟩ | ⟨-, j, o, ms, ks, -, hq, hks, hns, hhit⟩
  · cases hnone
  obtain ⟨q, m, rfl, hmem, hend⟩ := hhit f l rfl
  obtain ⟨j', o', _, _, _, -, hr, -, -, hhit'⟩ := hq.of_query
  obtain ⟨g, r, m', rfl, rfl, hmem', hend'⟩ := hhit' q m rfl
  have hclose : (place m).kind = .token .parenClose := by
    rcases hend with ⟨hclose, -⟩ | ⟨hw, -⟩
    · exact hclose
    · rcases hend' with ⟨hw', rfl⟩ | ⟨hw', rfl⟩
      · exact absurd hw (hspaced m' hw')
      · exact absurd hw hw'
  have hheight := height_le_of_mem hmem
  have hheight' := height_le_of_mem hmem'
  have hms := hitem .query _ _ _ _ hq (endsAt_of_closed (.inl hclose)) (by omega)
  rw [hns, hq.nesting_append, hks.nesting]
  have hr : 1 ≤ r.height := by
    cases hr with
    | rule_hit => simp
  rw [height_node] at hheight
  exact ⟨by omega, by omega⟩

end

/-- **A match has no more productions open at once than its tree is high**, where it may end and
whitespace stands alone. -/
theorem nesting_le_height
    (hspaced : ∀ i, (place i).kind = .token .whitespace → (place (i + 1)).kind ≠ .token .whitespace)
    {k : NodeKind} {t : Tree} (h : Course place (.rule k) i (some ([t], j)) ns)
    (he : EndsAt place k j) (ht : t.height ≤ n) : nesting (Note.events ns) ≤ n := by
  induction n generalizing k i t j ns with
  | zero =>
    cases h with
    | rule_hit => simp at ht
  | succ n ih =>
    have hitem : ∀ k i t j ns, Course place (.rule k) i (some ([t], j)) ns → EndsAt place k j →
        t.height ≤ n → nesting (Note.events ns) ≤ n := fun _ _ _ _ _ => ih
    -- Flat productions are bounded by their rank, all others by what they ask for.
    by_cases hk : rank k ≤ 2
    · exact flat_nesting_le hk h ht
    cases h with
    | @rule_hit _ _ _ f ms hbody =>
      rw [height_node] at ht
      rw [Note.events_around, nesting_around hbody.level]
      refine Nat.succ_le_succ ?_
      cases k with
      | wordSequence | exclusion | inclusion | prefixTerm | phraseOrWords =>
        exact absurd (by decide) hk
      | term =>
        obtain ⟨us, vs, hms, ⟨hus, m, hm, hsub⟩ | ⟨hus, hgroup⟩⟩ := of_term_hit hbody
        · obtain ⟨g, rfl, hrule⟩ := hsub.of_sub_hit
          rw [forestHeight_singleton] at ht
          have hvs := flat_nesting_le hm hrule (Nat.le_of_succ_le_succ ht)
          rw [height_node] at ht
          omega
        · have hvs := group_nesting_le hitem hspaced hgroup (by omega)
          omega
      | andTerm =>
        exact joined_nesting_le hitem hbody he (by decide) (by decide) (by decide) (by decide)
          (by omega)
      | orTerm =>
        exact joined_nesting_le hitem hbody he (by decide) (by decide) (by decide) (by decide)
          (by omega)
      | query =>
        have := query_nesting_le hitem (.rule_hit hbody) he (by simpa using ht)
        rw [Note.events_around, nesting_around hbody.level] at this
        omega

end Course

end ByPlace

open ByPlace

/-! ### What a line needs -/

/-- The run of a recognized line has as many productions open at once as its tree is high. -/
theorem nesting_of_recognize {line : String} {root : Tree} (h : recognize none line = .ok root) :
    nesting (recognizeTraced none line).2 = root.height := by
  obtain ⟨ns, hns, ⟨root', hcourse, hanswer⟩ | ⟨-, hanswer⟩⟩ := exists_course line
  · rw [h] at hanswer
    dsimp only at hanswer
    split at hanswer
    · rename_i heof
      cases hanswer
      have hends : EndsAt (tokenAt line) .query root.tokens.length := endsAt_of_closed (.inr heof)
      have hlower := hcourse.height_le [root] _ rfl
      rw [Tree.forestHeight_singleton] at hlower
      have hupper := hcourse.nesting_le_height
        (fun i => tokenAt_after_whitespace (i := i)) hends (Nat.le_refl _)
      rw [hns]
      exact Nat.le_antisymm hupper hlower
    · cases hanswer
  · rw [h] at hanswer
    cases hanswer

/-- The greatest number of groups that are open at once: over all prefixes, the excess of the
parentheses that open one over those that close one. -/
def openGroups (ts : List Token) : Nat :=
  crest (fun t => t.kind = .token .parenOpen) (fun t => t.kind = .token .parenClose) ts

/-- From each place of a line on, the groups that are open rise no further than the tokens to come
let them. -/
theorem balance_openGroups (line : String) :
    Balance (tokenAt line) fun i => openGroups ((lex line).drop i) := by
  have hbehind : ∀ i, ¬ i < (lex line).length →
      openGroups ((lex line).drop (i + 1)) = 0 ∧ (tokenAt line i).kind.isZeroWidth = true := by
    intro i hi
    rw [List.drop_eq_nil_of_le (by omega)]
    exact ⟨rfl, isZeroWidth_tokenAt.2 (by omega)⟩
  have hcons : ∀ i, i < (lex line).length → openGroups ((lex line).drop i) =
      openGroups ((lex line).drop (i + 1)) +
        (if (tokenAt line i).kind = .token .parenOpen then 1 else 0) -
        (if (tokenAt line i).kind = .token .parenClose then 1 else 0) := by
    intro i hi
    rw [drop_lex hi, openGroups, crest_cons]
    simp only [decide_eq_true_eq]
    rfl
  constructor
  · intro i hopen
    by_cases hi : i < (lex line).length
    · rw [hcons i hi, hopen, if_pos rfl, if_neg (by decide)]
      omega
    · have hzero := (hbehind i hi).2
      rw [hopen] at hzero
      cases hzero
  · intro i hclose
    by_cases hi : i < (lex line).length
    · rw [hcons i hi, hclose, if_neg (by decide), if_pos rfl]
      omega
    · rw [(hbehind i hi).1]
      exact Nat.zero_le _
  · intro i hopen hclose
    by_cases hi : i < (lex line).length
    · rw [hcons i hi, if_neg hopen, if_neg hclose]
      omega
    · rw [(hbehind i hi).1]
      exact Nat.zero_le _

/-- Without a limit a run has no more productions open at once than six, and four for each group. -/
theorem nesting_le_openGroups (line : String) :
    nesting (recognizeTraced none line).2 ≤ 4 * openGroups (lex line) + 6 := by
  have hbound := rule_within_balance (balance_openGroups line) (openGroups (lex line)) .query
  have hcourse : ∀ o ns, Course (tokenAt line) (.rule .query) 0 o ns →
      nesting (Note.events ns) ≤ 4 * openGroups (lex line) + 6 := by
    intro o ns h
    have hns := (hbound 0 o ns h (Nat.le_refl _)).1
    simp only [RecognizerM.rank] at hns
    omega
  obtain ⟨ns, hns, ⟨root, h, -⟩ | ⟨h, -⟩⟩ := exists_course line
  · rw [hns]
    exact hcourse _ ns h
  · rw [hns]
    exact hcourse _ ns h

/-- A limit never lets more productions be open than there are without one. -/
theorem nesting_recognizeTraced_le (limit : Option Nat) (line : String) :
    nesting (recognizeTraced limit line).2 ≤ nesting (recognizeTraced none line).2 := by
  cases limit with
  | none => exact Nat.le_refl _
  | some limit =>
    by_cases h : nesting (recognizeTraced none line).2 ≤ limit
    · rw [recognizeTraced_of_fits h]
    · have hle := nesting_recognizeTraced_some_le limit line
      omega

/-- **What nesting costs.** A recognized line is recognized under exactly those limits that are at
least the height of its tree; under a smaller one the answer is that the limit is exceeded. And on
any line, under any limit or none, there are never more productions open at once than six, and four
for each group that is open in the line at once, so such a limit changes nothing and never trips. -/
theorem recognize_limit_cost (line : String) :
    (∀ root, recognize none line = .ok root → ∀ limit, recognize (some limit) line =
      if root.height ≤ limit then .ok root else .error .nestingLimit) ∧
    (∀ limit : Option Nat,
      nesting (recognizeTraced limit line).2 ≤ 4 * openGroups (lex line) + 6) ∧
    ∀ limit, 4 * openGroups (lex line) + 6 ≤ limit →
      recognizeTraced (some limit) line = recognizeTraced none line ∧
        recognize (some limit) line ≠ .error .nestingLimit := by
  refine ⟨fun root h limit => ?_, fun limit => ?_, fun limit hlimit => ?_⟩
  · have hroot := nesting_of_recognize h
    split
    · rename_i hle
      rw [recognize, recognizeTraced_of_fits (by rwa [hroot]), ← recognize, h]
    · rename_i hlt
      exact (recognizeTraced_of_trips (by omega)).1
  · exact (nesting_recognizeTraced_le limit line).trans (nesting_le_openGroups line)
  · have hsame := recognizeTraced_of_fits ((nesting_le_openGroups line).trans hlimit)
    refine ⟨hsame, ?_⟩
    rw [recognize, hsame, ← recognize]
    obtain ⟨ns, -, ⟨root, -, hanswer⟩ | ⟨-, hanswer⟩⟩ := exists_course line
    · rw [hanswer]
      dsimp only
      split <;> (intro herror; cases herror)
    · rw [hanswer]
      intro herror
      cases herror

/-- For `( a )` both bounds are the same: ten productions are open at the word, four of them for the
parentheses, and ten is the least limit under which the line is recognized. -/
theorem recognize_limit_cost_spacedGroup :
    spacedGroup.height = 10 ∧ openGroups (lex "( a )") = 1 ∧
      recognize (some 10) "( a )" = .ok spacedGroup ∧
      recognize (some 9) "( a )" = .error .nestingLimit ∧
      nesting (recognizeTraced (some 20) "( a )").2 ≤ 10 := by
  have h : recognize none "( a )" = .ok spacedGroup := by decide +kernel
  have hheight : spacedGroup.height = 10 := by decide +kernel
  have hgroups : openGroups (lex "( a )") = 1 := by decide +kernel
  obtain ⟨hlimit, hnesting, -⟩ := recognize_limit_cost "( a )"
  refine ⟨hheight, hgroups, ?_, ?_, ?_⟩
  · rw [hlimit spacedGroup h, hheight, if_pos (by omega)]
  · rw [hlimit spacedGroup h, hheight, if_neg (by omega)]
  · have := hnesting (some 20)
    omega

end BoolQuery
