/-
# How much a run tries

Groups and alternatives may cost a backtracking recognizer exponential time: what a group holds is
matched again by everything that is tried at the same place. Here it is not. Each production that
begins is paid for by a token, and what a token paid for is never tried again:

| token | pays for |
| --- | --- |
| a parenthesis that opens a group | a `Query`, with one of every other production |
| `AND`, `OR` | a `Term` or an `AndTerm`, with one of every production below it |

Nothing is left to try behind a failure. A group that fails takes its term with it. A tail that
fails leaves its keyword standing, where no other tail begins and no group is closed, so that
whatever is open around it ends there without beginning another production.
-/

import BoolQuery.Proofs.ByPlace.CourseOfRun
import BoolQuery.Proofs.ByPlace.Mismatches
import BoolQuery.Proofs.Effort.Price
import BoolQuery.Proofs.Nesting.Limit
import Mathlib.Order.Monotone.Basic

namespace BoolQuery

open Grammar Recognizer

namespace ByPlace

section

variable (place : Nat → Token)

/-- What the tokens from each place on can still pay, at `c` for each that opens a group or joins
terms. -/
structure Fund (c : Nat) (left : Nat → Nat) : Prop where
  pays : ∀ i k, k ∈ [TokenKind.parenOpen, .kwAnd, .kwOr] → (place i).kind = .token k →
    left (i + 1) + c ≤ left i
  keeps : ∀ i, left (i + 1) ≤ left i

/-- Behind place `j` stands a keyword whose tail was begun in vain. -/
def Halted : NodeKind → Nat → Prop
  | .andTerm, j => (place j).kind = .token .whitespace ∧ (place (j + 1)).kind = .token .kwAnd
  | .orTerm, j => (place j).kind = .token .whitespace ∧
    ((place (j + 1)).kind = .token .kwAnd ∨ (place (j + 1)).kind = .token .kwOr)
  | .query, j => (place j).kind = .token .kwAnd ∨ (place j).kind = .token .kwOr
  | _, _ => False

/-- A course of the production from place `i` to `o` may cost so much: no more than the production
once and what the tokens from its start on can pay. Where it ends, the tokens behind it can still
pay their own part of that, or nothing will begin there. -/
structure Covered (price : Kind → Nat) (left : Nat → Nat) (k : NodeKind) (i : Nat) (o : Outcome)
    (cost : Nat) : Prop where
  paid : cost ≤ left i + onceEach price k
  rest : ∀ f j, o = some (f, j) → cost + left j ≤ left i + onceEach price k ∨ Halted place k j

end

variable {place : Nat → Token} {price : Kind → Nat} {left : Nat → Nat} {i l n : Nat} {f : Forest}
  {o : Outcome} {ns : List Note} {k m : NodeKind} {c : Nat}

theorem Fund.antitone (h : Fund place c left) : Antitone left := antitone_nat_of_succ_le h.keeps

namespace Course

/-! ### Productions that may hold groups -/

section

variable (hfund : Fund place (onceEach price .query) left)
  (hitem : ∀ k i o ms, Course place (.rule k) i o ms → (Note.events ms).length < n →
    Covered place price left k i o (effort price (Note.events ms)))

include hfund hitem

/-- The parenthesis of a group pays for its query. -/
theorem group_covered (h : Course place (.steps [] groupSteps) i o ns)
    (hn : (Note.events ns).length < n) :
    effort price (Note.events ns) ≤ left i ∧
      ∀ f j, o = some (f, j) → effort price (Note.events ns) + left j ≤ left i := by
  have hle := hfund.antitone
  rcases h.of_group with ⟨-, rfl, hns⟩ | ⟨hopen, j, o', ms, ks, hj, hq, hks, hns, hhit⟩
  · rw [hns.effort]
    exact ⟨Nat.zero_le _, nofun⟩
  have hpaid := hfund.pays i .parenOpen (by decide) hopen
  have hleft : left j ≤ left (i + 1) := hle (by rcases hj with rfl | ⟨-, rfl⟩ <;> omega)
  rw [hns, Note.events_append, List.length_append] at hn
  obtain ⟨hms, hrest⟩ := hitem .query j o' ms hq (by omega)
  rw [hns, Note.events_append, effort_append, hks.effort]
  refine ⟨by omega, fun f l hsome => ?_⟩
  obtain ⟨q, m, rfl, -, hend⟩ := hhit f l hsome
  have hml : left l ≤ left m := hle (by rcases hend with ⟨-, rfl⟩ | ⟨-, -, rfl⟩ <;> omega)
  rcases hrest _ m rfl with hrest | hhalted
  · omega
  · -- A query that halts in front of a keyword is not closed.
    rcases hend with ⟨hclose, -⟩ | ⟨hspace, -⟩
    · rcases hhalted with hk | hk <;> rw [hclose] at hk <;> cases hk
    · rcases hhalted with hk | hk <;> rw [hspace] at hk <;> cases hk

/-- A term costs itself and what is below it, and its group is paid for. -/
theorem term_covered (h : Course place (.ofBody (Grammar.body .term)) i o ns)
    (hn : (Note.events ns).length < n) :
    Covered place price left .term i o (effort price (Note.events ns) + price (.node .term)) := by
  have hparts : onceEach price .term = price (.node .term) +
      ([.exclusion, .inclusion, .prefixTerm, .phraseOrWords].map (onceEach price)).sum := by
    simp [onceEach, parts]
  rcases of_alternatives price [.exclusion, .inclusion, .prefixTerm, .phraseOrWords]
    (by decide) h with hns | ⟨us, gs, hgroup, rfl, hus⟩
  · refine ⟨by omega, fun f j hsome => .inl ?_⟩
    have hleft : left j ≤ left i := hfund.antitone (h.le_end f j hsome)
    omega
  · rw [Note.events_append, List.length_append] at hn
    obtain ⟨hgs, hrest⟩ := group_covered hfund hitem hgroup (by omega)
    rw [Note.events_append, effort_append]
    refine ⟨by omega, fun f j hsome => .inl ?_⟩
    have hleft := hrest f j hsome
    omega

section

variable {keyword : TokenKind} (hkeyword : keyword ∈ [TokenKind.parenOpen, .kwAnd, .kwOr])
  (hprice : onceEach price m ≤ onceEach price .query)
  (hpass : ∀ j, Halted place m j → Halted place k j ∧ (place (j + 1)).kind ≠ .token keyword)
  (hhalt : ∀ j, (place j).kind = .token .whitespace → (place (j + 1)).kind = .token keyword →
    Halted place k j)

include hkeyword hprice hpass hhalt

/-- The keyword of each tail pays for its item. Behind an item that halts no tail begins, and where
an item is missed the keyword halts what goes on. -/
theorem tails_covered
    (h : Course place (.tails [tok .whitespace, tok keyword, tok .whitespace, Grammar.sub m]) i
      (some (f, l)) ns) (hn : (Note.events ns).length < n) :
    (Halted place m i → l = i ∧ effort price (Note.events ns) = 0) ∧
      effort price (Note.events ns) ≤ left i ∧
      (effort price (Note.events ns) + left l ≤ left i ∨ Halted place k l) := by
  -- What the keyword behind a place pays is enough for the item behind the keyword.
  have hpaid : ∀ i, (place (i + 1)).kind = .token keyword →
      left (i + 3) + onceEach price m ≤ left i := by
    intro i hk
    have hpays : left (i + 2) + onceEach price .query ≤ left (i + 1) :=
      hfund.pays (i + 1) keyword hkeyword hk
    have hfirst : left (i + 1) ≤ left i := hfund.keeps i
    have hthird : left (i + 3) ≤ left (i + 2) := hfund.keeps (i + 2)
    omega
  generalize hg : Goal.tails _ = g at h
  generalize ho : some (f, l) = o at h
  induction h generalizing f with
  | tails_stop h =>
    cases hg
    cases ho
    rcases h.of_joining with ⟨-, hstill⟩ |
      ⟨hspace, hk, -, ⟨ms, ks, hmiss, -, hks, rfl⟩ | ⟨_, _, -, hsome⟩⟩
    · rw [hstill.effort]
      exact ⟨fun _ => ⟨rfl, rfl⟩, Nat.zero_le _, .inl (by omega)⟩
    · rw [Note.events_append, List.length_append] at hn
      have hms := (hitem m _ _ ms hmiss (by omega)).paid
      have := hpaid l hk
      rw [Note.events_append, effort_append, hks.effort]
      exact ⟨fun hm => absurd hk (hpass l hm).2, by omega, .inr (hhalt l hspace hk)⟩
    · cases hsome
  | @tails_more _ i _ _ _ _ ns ms h hrest _ ih =>
    cases hg
    cases ho
    rw [Note.events_append, List.length_append] at hn
    rcases h.of_joining with ⟨hnone, -⟩ |
      ⟨-, hk, -, ⟨_, _, -, hnone, -⟩ | ⟨f', j', hm, hsome⟩⟩
    · cases hnone
    · cases hnone
    cases hsome
    obtain ⟨hns, hend⟩ := hitem m _ _ ns hm (by omega)
    obtain ⟨hhalted, hms, htails⟩ := ih (by omega) rfl rfl
    have := hpaid i hk
    rw [Note.events_append, effort_append]
    refine ⟨fun hm => absurd hk (hpass i hm).2, ?_⟩
    rcases hend _ _ rfl with hend | hend
    · refine ⟨by omega, ?_⟩
      rcases htails with htails | htails
      · exact .inl (by omega)
      · exact .inr htails
    · obtain ⟨rfl, hzero⟩ := hhalted hend
      rw [hzero]
      exact ⟨by omega, .inr (hpass _ hend).1⟩
  | _ => cases hg

/-- Items of one level, joined by a keyword, cost the first item and what their keywords pay. -/
theorem joined_covered
    (h : Course place (.repetition [Grammar.sub m]
      [tok .whitespace, tok keyword, tok .whitespace, Grammar.sub m]) i o ns)
    (hparts : onceEach price k = price (.node k) + onceEach price m)
    (hn : (Note.events ns).length < n) :
    Covered place price left k i o (effort price (Note.events ns) + price (.node k)) := by
  cases h with
  | repetition_miss h =>
    have hpaid := (hitem m i none ns h.of_sub_miss hn).paid
    exact ⟨by omega, nofun⟩
  | @repetition_hit _ _ _ _ l _ _ us vs h hrest =>
    obtain ⟨g, rfl, hfirst⟩ := h.of_sub_hit
    rw [Note.events_append, List.length_append] at hn
    obtain ⟨hus, hend⟩ := hitem m _ _ us hfirst (by omega)
    obtain ⟨hhalted, hvs, htails⟩ :=
      tails_covered hfund hitem hkeyword hprice hpass hhalt hrest (by omega)
    rw [Note.events_append, effort_append]
    rcases hend _ _ rfl with hend | hend
    · refine ⟨by omega, ?_⟩
      rintro f j ⟨⟩
      rcases htails with htails | htails
      · exact .inl (by omega)
      · exact .inr htails
    · obtain ⟨rfl, hzero⟩ := hhalted hend
      refine ⟨by omega, ?_⟩
      rintro f j ⟨⟩
      exact .inr (hpass _ hend).1

end

/-- A query costs its `OrTerm` and itself. Where that halts the query takes the whitespace and halts
at the keyword. -/
theorem query_covered (h : Course place (.rule .query) i o ns) (hn : (Note.events ns).length ≤ n) :
    Covered place price left .query i o (effort price (Note.events ns)) := by
  have hle := hfund.antitone
  obtain ⟨j, o', ms, ks, g, hj, hr, hks, hns, hhit⟩ := h.of_query
  have hparts : onceEach price .query = price (.node .query) + onceEach price .orTerm := rfl
  have hleft : left j ≤ left i := hle (by rcases hj with rfl | ⟨-, rfl⟩ <;> omega)
  have hlen : (Note.events ms).length < n := by
    rw [hns, Note.events_append] at hn
    simp only [Event.around, List.length_cons, List.length_append] at hn
    omega
  obtain ⟨hms, hrest⟩ := hitem .orTerm j o' ms hr hlen
  have hcost : effort price (Note.events ns) =
      price (.node .query) + effort price (Note.events ms) := by
    rw [hns, effort_around, Note.events_append, effort_append, hks.effort, Nat.add_zero]
  refine ⟨by omega, fun f l hsome => ?_⟩
  obtain ⟨t, rfl⟩ := (hsome ▸ h).eq_singleton
  obtain ⟨g, r, e, rfl, rfl, -, hend⟩ := hhit t l hsome
  have hel : left l ≤ left e := hle (by rcases hend with ⟨-, rfl⟩ | ⟨-, rfl⟩ <;> omega)
  rcases hrest _ e rfl with hrest | ⟨hspace, hk⟩
  · exact .inl (by omega)
  · rcases hend with ⟨-, rfl⟩ | ⟨hno, -⟩
    · exact .inr hk
    · exact absurd hspace hno

end

/-- **What a course costs is paid for.** -/
theorem covered (hfund : Fund place (onceEach price .query) left)
    (h : Course place (.rule k) i o ns) :
    Covered place price left k i o (effort price (Note.events ns)) := by
  -- The induction is on the length of the events, since what a production asks for shows fewer.
  induction hn : (Note.events ns).length using Nat.strong_induction_on generalizing k i o ns with
  | _ n ih =>
    have hitem : ∀ k i o ms, Course place (.rule k) i o ms → (Note.events ms).length < n →
        Covered place price left k i o (effort price (Note.events ms)) :=
      fun k i o ms hm hlt => ih _ hlt hm rfl
    by_cases hflat : RecognizerM.rank k ≤ 2
    · have hns := h.effort_le_of_flat price hflat
      refine ⟨by omega, fun f j hsome => .inl ?_⟩
      have hleft : left j ≤ left i := hfund.antitone (h.le_end f j hsome)
      omega
    by_cases hquery : k = .query
    · subst hquery
      exact query_covered hfund hitem h (by omega)
    obtain ⟨o', ms, hbody, rfl, rfl⟩ := h.of_rule
    rw [Note.events_around] at hn ⊢
    have hlen : (Note.events ms).length < n := by
      simp only [Event.around, List.length_cons, List.length_append] at hn
      omega
    have hcovered : Covered place price left k i o' (effort price (Note.events ms) +
        price (.node k)) := by
      cases k with
      | wordSequence | phraseOrWords | exclusion | inclusion | prefixTerm =>
        exact absurd (by decide) hflat
      | query => exact absurd rfl hquery
      | term => exact term_covered hfund hitem hbody hlen
      | andTerm =>
        refine joined_covered hfund hitem (by decide) ?_ (fun _ => False.elim)
          (fun _ => And.intro) hbody rfl hlen
        simp only [onceEach, parts, List.map_cons, List.sum_cons]
        omega
      | orTerm =>
        refine joined_covered hfund hitem (by decide) ?_ ?_ ?_ hbody rfl hlen
        · simp only [onceEach, parts, List.map_cons, List.sum_cons]
          omega
        · rintro j ⟨hspace, hk⟩
          refine ⟨⟨hspace, .inl hk⟩, ?_⟩
          rw [hk]
          decide
        · exact fun j hspace hk => ⟨hspace, .inr hk⟩
    rw [effort_around, Nat.add_comm]
    refine ⟨hcovered.paid, fun f j hsome => ?_⟩
    obtain ⟨⟨g, l⟩, rfl, hr⟩ := Option.map_eq_some_iff.1 hsome
    cases hr
    exact hcovered.rest g _ rfl

end Course

end ByPlace

open ByPlace

/-! ### What a line costs -/

/-- How many of the tokens are of the kind. -/
def Token.count (k : TokenKind) (ts : List Token) : Nat := ts.countP fun t => t.kind = .token k

/-- How many of the tokens open a group or join terms. -/
def Token.forks (ts : List Token) : Nat :=
  Token.count .parenOpen ts + Token.count .kwAnd ts + Token.count .kwOr ts

/-- From each place of a line on, the tokens that fork can pay as often as there are any. -/
theorem fund_tokenAt (c : Nat) (line : String) :
    Fund (tokenAt line) c fun i => c * Token.forks ((lex line).drop i) := by
  have hcons : ∀ i, i < (lex line).length → Token.forks ((lex line).drop i) =
      Token.forks ((lex line).drop (i + 1)) + Token.forks [tokenAt line i] := by
    intro i hi
    rw [drop_lex hi]
    simp only [Token.forks, Token.count, List.countP_cons, List.countP_nil]
    omega
  constructor
  · intro i k hk hkind
    have hi : i < (lex line).length := by
      by_contra hi
      have hzero : (tokenAt line i).kind.isZeroWidth = true := isZeroWidth_tokenAt.2 (by omega)
      rw [hkind] at hzero
      simp only [List.mem_cons, List.not_mem_nil, or_false] at hk
      rcases hk with rfl | rfl | rfl <;> cases hzero
    have hone : Token.forks [tokenAt line i] = 1 := by
      simp only [List.mem_cons, List.not_mem_nil, or_false] at hk
      rcases hk with rfl | rfl | rfl <;> simp [Token.forks, Token.count, hkind]
    rw [hcons i hi, hone, Nat.mul_succ]
  · intro i
    refine Nat.mul_le_mul_left c ?_
    by_cases hi : i < (lex line).length
    · rw [hcons i hi]
      exact Nat.le_add_right ..
    · rw [List.drop_eq_nil_of_le (by omega)]
      exact Nat.zero_le _

/-- What a line costs without a limit: one of each production, and as much again for every token
that forks. -/
theorem effort_recognizeTraced_le (price : Kind → Nat) (line : String) :
    effort price (recognizeTraced none line).2 ≤
      onceEach price .query * (1 + Token.forks (lex line)) := by
  have hcourse : ∀ o ns, Course (tokenAt line) (.rule .query) 0 o ns →
      effort price (Note.events ns) ≤ onceEach price .query * (1 + Token.forks (lex line)) := by
    intro o ns h
    have hpaid := (h.covered (fund_tokenAt (onceEach price .query) line)).paid
    rw [List.drop_zero] at hpaid
    rw [Nat.mul_add, Nat.mul_one]
    omega
  obtain ⟨ns, hns, ⟨root, h, -⟩ | ⟨h, -⟩⟩ := exists_course line
  · rw [hns]
    exact hcourse _ ns h
  · rw [hns]
    exact hcourse _ ns h

/-- Under a limit no production begins that does not begin without one. -/
theorem countP_recognizeTraced_le {p : Event → Bool} (hp : ∀ e, p e = true → e.opens = true)
    (limit : Option Nat) (line : String) :
    (recognizeTraced limit line).2.countP p ≤ (recognizeTraced none line).2.countP p := by
  cases limit with
  | none => exact Nat.le_refl _
  | some limit =>
    by_cases h : nesting (recognizeTraced none line).2 ≤ limit
    · rw [recognizeTraced_of_fits h]
    · obtain ⟨-, before, rule, after, rest, hfree, -, -, hlimited, hrest, -⟩ :=
        recognizeTraced_of_trips (Nat.lt_of_not_le h)
      have hnone : rest.countP p = 0 := by
        have := List.countP_mono_left (l := rest) fun e _ => hp e
        omega
      rw [hfree, hlimited, List.countP_append, List.countP_append, hnone]
      omega

/-- **Nothing is tried twice.** Whatever a line is and whatever the limit, each production begins at
most once, and once more for every token that opens a group or joins terms; so there are at most
nine times as many beginnings in all. -/
theorem recognizeTraced_begins_le (limit : Option Nat) (line : String) :
    (recognizeTraced limit line).2.countP Event.opens ≤ 9 * (1 + Token.forks (lex line)) ∧
      ∀ k : NodeKind,
        (recognizeTraced limit line).2.countP (Event.begins k) ≤ 1 + Token.forks (lex line) := by
  constructor
  · refine (countP_recognizeTraced_le (fun _ => id) limit line).trans ?_
    have h := effort_recognizeTraced_le (fun _ => 1) line
    rwa [effort_eq_countP (p := Event.opens) (fun e => by cases e <;> rfl)] at h
  · intro k
    have hbegins : ∀ e, Event.begins k e = true → e.opens = true := by
      intro e he
      cases e with
      | enter _ => rfl
      | matched _ | failed _ | backtrack _ => cases he
    refine (countP_recognizeTraced_le hbegins limit line).trans ?_
    have h := effort_recognizeTraced_le (fun kind => if kind = .node k then 1 else 0) line
    rw [effort_eq_countP (p := Event.begins k)
      (fun e => by cases e <;> simp [Event.charge, Event.begins])] at h
    have hone : onceEach (fun kind => if kind = .node k then 1 else 0) .query = 1 := by
      cases k <;> rfl
    rwa [hone, Nat.one_mul] at h

/-- The bound is reached: a word costs one of every production, and `(a` two. -/
example : (recognizeTraced none "a").2.countP Event.opens = 9 ∧
    (recognizeTraced none "(a").2.countP Event.opens = 18 := by decide +kernel

end BoolQuery
