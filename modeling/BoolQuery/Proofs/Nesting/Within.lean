/-
# How many productions a course has open

`Within place P n g Q` bounds the courses of a goal that start where `P` holds: none of them has
more than `n` productions open at once, and those that match end where `Q` holds. Bounds are put
together as goals are, so the bound of a production follows from those of the productions it asks
for.

| production | open at once, no group being opened |
| --- | ---: |
| `WordSequence`, `Exclusion`, `Inclusion`, `PrefixTerm` | 1 |
| `PhraseOrWords`, `Term`, `AndTerm`, `OrTerm` | 2 to 5 |
| `Query` | 6 |

A group is opened by a `Term` and has a `Query` in it, so each costs four more: the parenthesis, the
`Term`, the `AndTerm` and the `OrTerm` around it stay open beside those of the `Query`.
-/

import BoolQuery.Proofs.ByPlace.CourseParts
import BoolQuery.Recognizer.Totality

namespace BoolQuery
namespace ByPlace

open Grammar Recognizer
open RecognizerM (rank)

section

variable (place : Nat → Token)

/-- Where `P` holds no course of the goal has more than `n` productions open at once, and the
courses that match end where `Q` holds. -/
def Within (P : Nat → Prop) (n : Nat) (g : Goal) (Q : Nat → Prop) : Prop :=
  ∀ i o ns, Course place g i o ns → P i →
    nesting (Note.events ns) ≤ n ∧ ∀ f j, o = some (f, j) → Q j

/-- The same of steps in order, whatever was matched before them. -/
def AllWithin (P : Nat → Prop) (n : Nat) (ds : List Designator) (Q : Nat → Prop) : Prop :=
  ∀ done, Within place P n (.steps done ds) Q

end

variable {place : Nat → Token} {P Q R : Nat → Prop} {n : Nat} {g : Goal}

/-! ### One bound for each way of matching -/

/-- A bound may be raised. -/
theorem Within.mono {m : Nat} (h : Within place P n g Q) (hnm : n ≤ m) : Within place P m g Q := by
  intro i o ns hc hi
  obtain ⟨hn, hQ⟩ := h i o ns hc hi
  exact ⟨hn.trans hnm, hQ⟩

/-- A token opens no production and is passed where it stands. -/
theorem within_token {k : TokenKind} (h : ∀ i, P i → (place i).kind = .token k → Q (i + 1)) :
    Within place P n (.step (tok k)) Q := by
  intro i o ns hc hi
  cases hc with
  | token_hit hk =>
    refine ⟨Nat.zero_le n, ?_⟩
    rintro f j ⟨⟩
    exact h i hi hk
  | token_miss _ => exact ⟨Nat.zero_le n, nofun⟩

/-- A nonterminal as a step is as its production. -/
theorem Within.sub {k : NodeKind} (h : Within place P n (.rule k) Q) :
    Within place P n (.step (Grammar.sub k)) Q := by
  intro i o ns hc hi
  cases hc with
  | sub hc => exact h i o ns hc hi

/-- What is optional ends where it begins or where its steps end. -/
theorem Within.optional {ds : List Designator} (h : AllWithin place P n ds P) :
    Within place P n (.step (.optional ds)) P := by
  intro i o ns hc hi
  cases hc with
  | optional_hit hc => exact h [] i _ ns hc hi
  | optional_miss hc =>
    refine ⟨(h [] i _ ns hc hi).1, ?_⟩
    rintro f j ⟨⟩
    exact hi

/-- No steps open no production and end where they begin. -/
theorem allWithin_nil : AllWithin place P n [] P := by
  intro done i o ns hc hi
  cases hc
  refine ⟨Nat.zero_le n, ?_⟩
  rintro f j ⟨⟩
  exact hi

/-- Steps in order open no more than each of them does where the one in front ends. -/
theorem AllWithin.cons {d : Designator} {ds : List Designator} (hd : Within place P n (.step d) Q)
    (hds : AllWithin place Q n ds R) : AllWithin place P n (d :: ds) R := by
  intro done i o ns hc hi
  cases hc with
  | @steps_miss _ _ _ _ ms hc =>
    have hms := (hd i _ ms hc hi).1
    rw [hc.nesting_append, (Note.still_returned done).nesting]
    exact ⟨by omega, nofun⟩
  | @steps_behind _ f _ _ _ j ms ks hc hcs =>
    obtain ⟨hms, hQ⟩ := hd i _ ms hc hi
    have hks := (hds _ j _ ks hcs (hQ f j rfl)).1
    rw [hc.nesting_append]
    exact ⟨by omega, nofun⟩
  | @steps_hit _ f g _ _ _ j l ms ks hc hcs =>
    obtain ⟨hms, hQ⟩ := hd i _ ms hc hi
    obtain ⟨hks, hR⟩ := hds _ j _ ks hcs (hQ f j rfl)
    rw [hc.nesting_append]
    refine ⟨by omega, ?_⟩
    rintro f' l' ⟨⟩
    exact hR g l rfl

/-- A choice opens no more than its alternatives do. -/
theorem Within.choice {alternatives : List (List Designator)}
    (h : ∀ ds ∈ alternatives, AllWithin place P n ds Q) :
    Within place P n (.choice alternatives) Q := by
  intro i o ns hc hi
  induction alternatives generalizing o ns with
  | nil =>
    cases hc
    exact ⟨Nat.zero_le n, nofun⟩
  | cons ds rest ih =>
    rw [List.forall_mem_cons] at h
    cases hc with
    | choice_hit hc => exact h.1 [] i _ ns hc hi
    | @choice_next _ _ _ _ ms ks hc hrest =>
      have hms := (h.1 [] i _ ms hc hi).1
      obtain ⟨hks, hQ⟩ := ih h.2 o ks hrest
      rw [hc.nesting_append]
      exact ⟨by omega, hQ⟩

/-- The tails of a repetition open no more than one tail does. -/
theorem Within.tails {tail : List Designator} (h : AllWithin place P n tail P) :
    Within place P n (.tails tail) P := by
  intro i o ns hc hi
  generalize hg : Goal.tails tail = g at hc
  induction hc with
  | tails_stop hc =>
    cases hg
    refine ⟨(h [] _ _ _ hc hi).1, ?_⟩
    rintro f j ⟨⟩
    exact hi
  | @tails_more _ i j l f g ms ks hc hrest _ ih =>
    cases hg
    obtain ⟨hms, hP⟩ := h [] i _ ms hc hi
    obtain ⟨hks, hQ⟩ := ih (hP f j rfl) rfl
    rw [hc.nesting_append]
    refine ⟨by omega, ?_⟩
    rintro f' l' ⟨⟩
    exact hQ g l rfl
  | _ => cases hg

/-- A repetition opens no more than its head and its tails do. -/
theorem Within.repetition {head tail : List Designator} (hhead : AllWithin place P n head Q)
    (htail : AllWithin place Q n tail Q) : Within place P n (.repetition head tail) Q := by
  intro i o ns hc hi
  cases hc with
  | repetition_miss hc => exact ⟨(hhead [] i _ ns hc hi).1, nofun⟩
  | @repetition_hit _ _ _ j l f g ms ks hc hrest =>
    obtain ⟨hms, hQ⟩ := hhead [] i _ ms hc hi
    obtain ⟨hks, hR⟩ := Within.tails htail j _ ks hrest (hQ f j rfl)
    rw [hc.nesting_append]
    refine ⟨by omega, ?_⟩
    rintro f' l' ⟨⟩
    exact hR g l rfl

/-- A production opens one more than its body does. -/
theorem Within.rule {k : NodeKind} (h : Within place P n (.ofBody (Grammar.body k)) Q) :
    Within place P (n + 1) (.rule k) Q := by
  intro i o ns hc hi
  obtain ⟨o', ms, hbody, rfl, rfl⟩ := hc.of_rule
  obtain ⟨hms, hQ⟩ := h i o' ms hbody hi
  rw [Note.events_around, nesting_around hbody.level]
  refine ⟨by omega, ?_⟩
  rintro f j hsome
  obtain ⟨⟨f', j'⟩, rfl, ⟨⟩⟩ := Option.map_eq_some_iff.1 hsome
  exact hQ f' j' rfl

/-! ### The productions -/

/-- The steps of a group. -/
abbrev groupSteps : List Designator :=
  [tok .parenOpen, space?, Grammar.sub .query, space?, tok .parenClose]

/-- **A production is within one more than the productions it asks for.** What holds at every place
behind a token that is no parenthesis is kept, provided that a group keeps it. -/
theorem rule_within {c : Nat} (k : NodeKind)
    (hP : ∀ i, P i → (place i).kind ≠ .token .parenOpen → (place i).kind ≠ .token .parenClose →
      P (i + 1))
    (hsub : ∀ m, rank m < rank k → Within place P (rank m + c) (.rule m) P)
    (hgroup : k = .term → AllWithin place P (2 + c) groupSteps P) :
    Within place P (rank k + c) (.rule k) P := by
  have htok : ∀ n k, k ≠ TokenKind.parenOpen → k ≠ .parenClose →
      Within place P n (.step (tok k)) P := by
    intro n k hopen hclose
    refine within_token fun i hi hk => hP i hi ?_ ?_
    · rw [hk]
      exact fun h => hopen (Kind.token.inj h)
    · rw [hk]
      exact fun h => hclose (Kind.token.inj h)
  have hspace : ∀ n, Within place P n (.step space?) P := fun n =>
    .optional (.cons (htok n .whitespace (by decide) (by decide)) allWithin_nil)
  have hone : ∀ n m, rank m < rank k → rank m + c ≤ n →
      AllWithin place P n [Grammar.sub m] P := fun n m hm hn =>
    .cons ((hsub m hm).mono hn).sub allWithin_nil
  have hmarked : ∀ op, op ≠ TokenKind.parenOpen → op ≠ .parenClose →
      Within place P c (.choice [[tok op, tok .word], [tok op, tok .phrase]]) P := by
    intro op hopen hclose
    refine .choice ?_
    rw [List.forall_mem_cons, List.forall_mem_singleton]
    constructor
    · exact .cons (htok c op hopen hclose)
        (.cons (htok c .word (by decide) (by decide)) allWithin_nil)
    · exact .cons (htok c op hopen hclose)
        (.cons (htok c .phrase (by decide) (by decide)) allWithin_nil)
  have hjoined : ∀ n m keyword, keyword ≠ TokenKind.parenOpen → keyword ≠ .parenClose →
      rank m < rank k → rank m + c ≤ n →
      Within place P n (.repetition [Grammar.sub m]
        [tok .whitespace, tok keyword, tok .whitespace, Grammar.sub m]) P := by
    intro n m keyword hopen hclose hm hn
    have hws := htok n .whitespace (by decide) (by decide)
    have hkeyword := htok n keyword hopen hclose
    exact .repetition (hone n m hm hn) (.cons hws (.cons hkeyword (.cons hws (hone n m hm hn))))
  -- What a production asks for has a lower rank, and the production itself is one more.
  rw [show rank k + c = rank k - 1 + c + 1 by cases k <;> simp only [rank] <;> omega]
  refine Within.rule ?_
  cases k with
  | wordSequence =>
    have hword := htok (0 + c) .word (by decide) (by decide)
    exact .repetition (.cons hword allWithin_nil)
      (.cons (htok (0 + c) .whitespace (by decide) (by decide)) (.cons hword allWithin_nil))
  | phraseOrWords =>
    refine .choice ?_
    rw [List.forall_mem_cons, List.forall_mem_singleton]
    constructor
    · exact .cons (htok _ .phrase (by decide) (by decide)) allWithin_nil
    · exact hone _ .wordSequence (by decide) (Nat.le_refl _)
  | exclusion => exact (hmarked .excludeOp (by decide) (by decide)).mono (by simp [rank])
  | inclusion => exact (hmarked .includeOp (by decide) (by decide)).mono (by simp [rank])
  | prefixTerm =>
    refine .choice ?_
    rw [List.forall_mem_singleton]
    exact .cons (htok _ .word (by decide) (by decide))
      (.cons (htok _ .starOp (by decide) (by decide)) allWithin_nil)
  | term =>
    refine .choice ?_
    simp only [List.forall_mem_cons, List.not_mem_nil, false_implies, implies_true, and_true]
    refine ⟨?_, ?_, ?_, ?_, hgroup rfl⟩
    all_goals exact hone _ _ (by decide) (by simp only [rank]; omega)
  | andTerm => exact hjoined _ .term .kwAnd (by decide) (by decide) (by decide) (by simp [rank])
  | orTerm => exact hjoined _ .andTerm .kwOr (by decide) (by decide) (by decide) (by simp [rank])
  | query =>
    refine .choice ?_
    rw [List.forall_mem_singleton]
    exact .cons (hspace _) (.cons ((hsub .orTerm (by decide)).mono (by simp [rank])).sub
      (.cons (hspace _) allWithin_nil))

/-- The productions that ask for no group. -/
theorem flat_within {k : NodeKind} (hk : rank k ≤ 2) :
    Within place (fun _ => True) (rank k) (.rule k) fun _ => True := by
  have hrank : ∀ r k, rank k ≤ r → r ≤ 2 →
      Within place (fun _ => True) (rank k + 0) (.rule k) fun _ => True := by
    intro r
    induction r with
    | zero =>
      intro k hk
      cases k <;> cases hk
    | succ r ih =>
      intro k hk hr
      refine rule_within k (fun _ _ _ _ => trivial) (fun m hm => ih m (by omega) (by omega)) ?_
      rintro rfl
      simp only [rank] at hk
      omega
  exact hrank 2 k hk (Nat.le_refl 2)

/-- How far the groups that are open may still rise from each place on: a parenthesis that opens one
uses up one of them, and one that closes one gives at most one back. -/
structure Balance (place : Nat → Token) (left : Nat → Nat) : Prop where
  opened : ∀ i, (place i).kind = .token .parenOpen → left (i + 1) + 1 ≤ left i
  closed : ∀ i, (place i).kind = .token .parenClose → left (i + 1) ≤ left i + 1
  other : ∀ i, (place i).kind ≠ .token .parenOpen → (place i).kind ≠ .token .parenClose →
    left (i + 1) ≤ left i

/-- A group is within its query, for which one group less is left. -/
theorem group_within {left : Nat → Nat} (hleft : Balance place left) {b : Nat}
    (hquery : ∀ a, a + 1 = b →
      Within place (fun i => left i ≤ a) (6 + 4 * a) (.rule .query) fun i => left i ≤ a) :
    AllWithin place (fun i => left i ≤ b) (2 + 4 * b) groupSteps fun i => left i ≤ b := by
  have hspace : Within place (fun i => left i + 1 ≤ b) (2 + 4 * b) (.step space?)
      fun i => left i + 1 ≤ b := by
    refine .optional (.cons (within_token fun i hi hk => ?_) allWithin_nil)
    have := hleft.other i (by rw [hk]; decide) (by rw [hk]; decide)
    omega
  have hinner : Within place (fun i => left i + 1 ≤ b) (2 + 4 * b) (.rule .query)
      fun i => left i + 1 ≤ b := by
    intro i o ns hc hi
    obtain ⟨a, rfl⟩ : ∃ a, a + 1 = b := ⟨b - 1, by omega⟩
    obtain ⟨hns, hQ⟩ := hquery a rfl i o ns hc (by omega)
    refine ⟨by omega, fun f j hsome => ?_⟩
    have := hQ f j hsome
    omega
  refine .cons (within_token fun i hi ho => ?_)
    (.cons hspace (.cons hinner.sub (.cons hspace (.cons ?_ allWithin_nil))))
  · have := hleft.opened i ho
    omega
  · refine within_token fun i hi hc => ?_
    have := hleft.closed i hc
    omega

/-- **Every group costs four.** With so many groups left to rise no course of a production has more
productions open at once than without a group and four for each of them, and a course that matches
leaves no more of them. -/
theorem rule_within_balance {left : Nat → Nat} (hleft : Balance place left) (b : Nat)
    (k : NodeKind) :
    Within place (fun i => left i ≤ b) (rank k + 4 * b) (.rule k) fun i => left i ≤ b := by
  -- The outer induction is on the groups left, the inner one on the rank.
  induction b using Nat.strong_induction_on generalizing k with
  | _ b ihb =>
    induction hr : rank k using Nat.strong_induction_on generalizing k with
    | _ r ih =>
      subst hr
      refine rule_within k (fun i hi ho hc => (hleft.other i ho hc).trans hi)
        (fun m hm => ih (rank m) hm m rfl) fun _ => group_within hleft fun a ha => ?_
      exact ihb a (by omega) .query

end ByPlace
end BoolQuery
