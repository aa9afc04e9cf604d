/-
# The limit is transparent until it trips

Let `D` be the greatest number of productions that are open at once in the run without limit. A
limit of at least `D` changes nothing. A smaller one trips: the events are the same up to the first
production beyond the limit, from there on none opens any more, and the answer is the limit's own.
-/

import BoolQuery.Proofs.Nesting.Lockstep
import BoolQuery.Proofs.Outcome

namespace BoolQuery

open Recognizer RecognizerM

/-- The run of a line under a limit, next to the one without. -/
theorem exists_parallel (limit : Nat) (line : String) :
    ∃ (root? : Option Tree) (u : State) (root'? : Option Tree) (u' : State),
      recognizeTraced none line = (u.answer root?, u.events.toList) ∧
      recognizeTraced (some limit) line = (u'.answer root'?, u'.events.toList) ∧
      Level u'.events.toList ∧
      Parallel limit (State.start line none) root? u root'? u' u.events.toList := by
  obtain ⟨root?, u, h, hfree⟩ := exists_recognizeTraced none line
  obtain ⟨root'?, u', h', hlimited⟩ := exists_recognizeTraced (some limit) line
  obtain ⟨es, hes⟩ := (rule_limited (.node .query)).passage _ _ _ h
  obtain ⟨fs, hfs⟩ := (rule_limited (.node .query)).passage _ _ _ h'
  obtain rfl : u.events.toList = es := hes.events
  obtain rfl : u'.events.toList = fs := hfs.events
  exact ⟨root?, u, root'?, u', hfree, hlimited, hfs.level,
    (rule_limited (.node .query)).lockstep limit _ _ _ _ _ _ rfl rfl (Nat.zero_le _) h h' hes⟩

/-- A limit that is never reached changes nothing. -/
theorem recognizeTraced_of_fits {limit : Nat} {line : String}
    (h : nesting (recognizeTraced none line).2 ≤ limit) :
    recognizeTraced (some limit) line = recognizeTraced none line := by
  obtain ⟨root?, u, root'?, u', hfree, hlimited, -, hpar⟩ := exists_parallel limit line
  rw [hfree] at h
  rw [hfree, hlimited]
  rcases hpar with ⟨-, rfl, rfl⟩ | ⟨before, rule, after, rest, hes, -, hfull, -, -, -⟩
  · rfl
  · -- With the production that trips the limit one too many would be open.
    have hprefix : before ++ [.enter rule] <+: u.events.toList := ⟨after, by rw [hes]; simp⟩
    have hle := crest_le_iff.1 h _ hprefix
    rw [List.countP_append, List.countP_append, List.countP_singleton, List.countP_singleton,
      Event.opens_enter, Event.closes_enter, if_pos rfl, if_neg Bool.false_ne_true] at hle
    simp only [State.start] at hfull
    omega

/-- A limit that is reached trips. -/
theorem recognizeTraced_of_trips {limit : Nat} {line : String}
    (h : limit < nesting (recognizeTraced none line).2) :
    recognize (some limit) line = .error .nestingLimit ∧
    ∃ before rule after rest,
      (recognizeTraced none line).2 = before ++ .enter rule :: after ∧
      nesting before ≤ limit ∧
      before.countP Event.opens = before.countP Event.closes + limit ∧
      (recognizeTraced (some limit) line).2 = before ++ rest ∧
      rest.countP Event.opens = 0 ∧ rest.countP Event.closes = limit := by
  obtain ⟨root?, u, root'?, u', hfree, hlimited, hlevel, hpar⟩ := exists_parallel limit line
  rw [hfree] at h
  rw [hfree, recognize, hlimited]
  rcases hpar with
    ⟨hfits, -, -⟩ | ⟨before, rule, after, rest, hes, hfits, hfull, hspent, hev, hrest⟩
  · simp only [State.start] at h hfits
    omega
  · simp only [State.start, Nat.zero_add] at hfits hfull
    have hevents : u'.events.toList = before ++ rest := hev
    rw [hevents, Level, List.countP_append, List.countP_append] at hlevel
    exact ⟨State.answer_spent hspent, before, rule, after, rest, hes, hfits, by omega, hevents,
      hrest, by omega⟩

/-- A limit bounds how many productions are open at once. -/
theorem nesting_recognizeTraced_some_le (limit : Nat) (line : String) :
    nesting (recognizeTraced (some limit) line).2 ≤ limit := by
  rcases Nat.lt_or_ge limit (nesting (recognizeTraced none line).2) with htrips | hfits
  · obtain ⟨-, before, rule, after, rest, -, hbefore, hfull, hevents, hrest, -⟩ :=
      recognizeTraced_of_trips htrips
    have hcrest : nesting rest = 0 := crest_eq_zero hrest
    rw [hevents, nesting, crest_append, ← nesting, ← nesting, hcrest]
    omega
  · rwa [recognizeTraced_of_fits hfits]

/-- A line that is recognized under a limit is recognized with the same tree without one. -/
theorem recognize_of_limited {limit : Option Nat} {line : String} {root : Tree}
    (h : recognize limit line = .ok root) : recognize none line = .ok root := by
  cases limit with
  | none => exact h
  | some limit =>
    have hfits : nesting (recognizeTraced none line).2 ≤ limit := by
      by_contra hlt
      rw [(recognizeTraced_of_trips (Nat.lt_of_not_le hlt)).1] at h
      cases h
    rw [recognize, recognizeTraced_of_fits hfits] at h
    exact h

/-- **The limit is transparent until it trips.** If the run without limit never has more productions
open than the limit allows, then the limit changes neither answer nor events. Otherwise the answer
is that the limit is exceeded. The events are then those of the run without limit up to the first
production that would be one too many, and behind them no production is opened and as many are
closed as the limit allows. So an answer other than that stays the same under every larger limit,
and under none. -/
theorem recognizeTraced_limit (limit : Nat) (line : String) :
    (nesting (recognizeTraced none line).2 ≤ limit →
      recognizeTraced (some limit) line = recognizeTraced none line) ∧
    (limit < nesting (recognizeTraced none line).2 →
      recognize (some limit) line = .error .nestingLimit ∧
      ∃ before rule after rest,
        (recognizeTraced none line).2 = before ++ .enter rule :: after ∧
        nesting before ≤ limit ∧
        before.countP Event.opens = before.countP Event.closes + limit ∧
        (recognizeTraced (some limit) line).2 = before ++ rest ∧
        rest.countP Event.opens = 0 ∧ rest.countP Event.closes = limit) ∧
    (recognize (some limit) line ≠ .error .nestingLimit →
      recognizeTraced none line = recognizeTraced (some limit) line ∧
      ∀ larger, limit ≤ larger →
        recognizeTraced (some larger) line = recognizeTraced (some limit) line) := by
  refine ⟨recognizeTraced_of_fits, recognizeTraced_of_trips, fun hne => ?_⟩
  have hfits : nesting (recognizeTraced none line).2 ≤ limit :=
    Nat.le_of_not_lt fun hlt => hne (recognizeTraced_of_trips hlt).1
  have hlimit := recognizeTraced_of_fits hfits
  refine ⟨hlimit.symm, fun larger hle => ?_⟩
  rw [hlimit, recognizeTraced_of_fits (hfits.trans hle)]

/-- On `(a` four productions and the six of a word in parentheses come to be open: ten are a limit
that the run fits, under nine it trips. -/
theorem recognizeTraced_limit_openGroup :
    nesting (recognizeTraced none "(a").2 = 10 ∧
      recognizeTraced (some 10) "(a" = recognizeTraced none "(a" ∧
      recognize (some 9) "(a" = .error .nestingLimit := by
  have h : nesting (recognizeTraced none "(a").2 = 10 := by decide +kernel
  exact ⟨h, (recognizeTraced_limit 10 "(a").1 (Nat.le_of_eq h),
    ((recognizeTraced_limit 9 "(a").2.1 (by omega)).1⟩

end BoolQuery
