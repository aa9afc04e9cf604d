/-
# Productions without a bound

Productions are run with a bound on how many are open one inside another, and the tails of a
repetition with a bound on their number. Neither bound is part of the grammar, and neither is ever
met: what a run comes to depends only on the productions that it asks for, these have less room
(`Recursion/Subgoals`), and tails that read take tokens off those to come.

So productions run as productions do, whatever runs the productions inside them, and there is
nothing else that does so.
-/

import BoolQuery.Proofs.Grammar.Soundness
import BoolQuery.Proofs.Recursion.Subgoals

namespace BoolQuery
namespace RecognizerM

open Recognizer Grammar Reader
open ByPlace (Goal)

/-! ### Runs that agree -/

/-- Computations one after the other run alike if the first ones do, and then the others. -/
theorem bind_run_congr {α β : Type} {x y : RecognizerM α} {f g : α → RecognizerM β} {s : State}
    (hx : x s = y s) (hf : ∀ a t, y s = .ok a t → f a t = g a t) : (x >>= f) s = (y >>= g) s := by
  change EStateM.bind x f s = EStateM.bind y g s
  unfold EStateM.bind
  rw [hx]
  split
  · rename_i a t hy
    exact hf a t hy
  · rfl

/-- `r'` runs every production as `r` does that matching `g` from `s` asks for on the way. -/
def AgreesOn (r r' : Kind → RecognizerM (Option Tree)) (g : Goal) (s : State) : Prop :=
  ∀ ts k t, Reaches r g s ts (.rule k) t → r' (.node k) t = r (.node k) t

section

variable {r r' : Kind → RecognizerM (Option Tree)}

/-- Who agrees on a goal agrees on what is asked for on the way. -/
theorem AgreesOn.of_subgoal {g h : Goal} {s t : State} {ts : List Token} (ha : AgreesOn r r' g s)
    (hg : Subgoal r g s ts h t) : AgreesOn r r' h t :=
  fun us k u hk => ha (ts ++ us) k u (.on hg hk)

mutual

/-- A step is matched alike by those that agree on it: by recursion over the step, with
`stepsFrom_agrees`. -/
theorem step_agrees : ∀ (d : Designator) (s : State), d.WellFormed →
    AgreesOn r r' (.step d) s → step r' d s = step r d s
  | .terminal _, _, _, _ => by simp only [step]
  | .rule kind, s, hd, ha => by
    rw [Designator.WellFormed] at hd
    simp only [step]
    refine bind_run_congr ?_ fun _ _ _ => rfl
    cases kind with
    | node k => exact ha [] k s (.on .sub .here)
    | token k => cases hd
    | endMark => cases hd
  | .optional ds, s, hd, ha => by
    rw [Designator.WellFormed] at hd
    simp only [step]
    exact bind_run_congr (stepsFrom_agrees ds [] s hd (ha.of_subgoal .optional)) fun _ _ _ => rfl

/-- Steps in order are matched alike by those that agree on them. -/
theorem stepsFrom_agrees : ∀ (ds : List Designator) (done : Forest) (s : State), AllWellFormed ds →
    AgreesOn r r' (.steps done ds) s → stepsFrom r' done ds s = stepsFrom r done ds s
  | [], _, _, _, _ => by simp only [stepsFrom]
  | d :: ds, done, s, hds, ha => by
    rw [AllWellFormed] at hds
    simp only [stepsFrom]
    refine bind_run_congr (step_agrees d s hds.1 (ha.of_subgoal .first)) fun f t hf => ?_
    cases f with
    | some more =>
      exact stepsFrom_agrees ds (done ++ more) t hds.2 (ha.of_subgoal (.behind hf))
    | none => rfl

end

/-- A choice is matched alike by those that agree on it. -/
theorem choice_agrees {alternatives : List (List Designator)} {s : State}
    (hw : ∀ ds ∈ alternatives, AllWellFormed ds) (ha : AgreesOn r r' (.choice alternatives) s) :
    choice r' alternatives s = choice r alternatives s := by
  induction alternatives generalizing s with
  | nil => rfl
  | cons ds rest ih =>
    simp only [choice]
    refine bind_run_congr
      (stepsFrom_agrees ds [] s (hw ds (.head _)) (ha.of_subgoal .alternative)) fun f t hf => ?_
    cases f with
    | some f => rfl
    | none => exact ih (fun es hes => hw es (.tail _ hes)) (ha.of_subgoal (.otherwise hf))

/-- The tails of a repetition are matched alike by those that agree on them. -/
theorem tails_agrees {tail : List Designator} {s : State} (hw : AllWellFormed tail)
    (ha : AgreesOn r r' (.tails tail) s) (bound : Nat) :
    tails r' tail bound s = tails r tail bound s := by
  induction bound generalizing s with
  | zero => rfl
  | succ bound ih =>
    simp only [tails]
    refine bind_run_congr rfl fun _ _ hget => ?_
    cases hget
    by_cases hs : s.spent = true
    · simp only [hs, if_true]
    · have hs : s.spent = false := by simpa using hs
      simp only [hs, Bool.false_eq_true, if_false]
      refine bind_run_congr
        (stepsFrom_agrees tail [] s hw (ha.of_subgoal (.tail hs))) fun f t hf => ?_
      cases f with
      | none => rfl
      | some more => exact bind_run_congr (ih (ha.of_subgoal (.again hs hf))) fun _ _ _ => rfl

/-- A repetition is matched alike by those that agree on it. -/
theorem repetition_agrees {head tail : List Designator} {s : State} (hh : AllWellFormed head)
    (ht : AllWellFormed tail) (ha : AgreesOn r r' (.repetition head tail) s) :
    repetition r' head tail s = repetition r head tail s := by
  unfold repetition
  refine bind_run_congr (stepsFrom_agrees head [] s hh (ha.of_subgoal .head)) fun f t hf => ?_
  cases f with
  | none => rfl
  | some first =>
    refine bind_run_congr rfl fun _ _ hget => ?_
    cases hget
    exact bind_run_congr (tails_agrees ht (ha.of_subgoal (.behindHead hf)) _) fun _ _ _ => rfl

/-- The body of a production is matched alike by those that agree on it. -/
theorem body_agrees {b : Body} {s : State} (hw : (Goal.ofBody b).WellFormed)
    (ha : AgreesOn r r' (.ofBody b) s) : body r' b s = body r b s := by
  cases b with
  | choice alternatives => exact choice_agrees hw ha
  | repetition head tail => exact repetition_agrees hw.1 hw.2 ha

end

/-! ### One production -/

/-- Runs the production of a kind, where `r` runs the productions inside it. -/
def production (r : Kind → RecognizerM (Option Tree)) (kind : Kind) :
    RecognizerM (Option Tree) := do
  if ← openRule then
    emit (.enter kind)
    match kind with
    | .node k =>
      let children? ← body r (Grammar.body k)
      closeRule
      match children? with
      | some children =>
        emit (.matched (.node k children))
        return some (.node k children)
      | none =>
        emit (.failed kind)
        return none
    | _ => throw (.unsupportedRule kind)
  else
    return none

/-- Within one level more, productions run as productions do, with the bound for those inside. -/
theorem ruleWithin_succ (bound : Nat) : ruleWithin (bound + 1) = production (ruleWithin bound) := by
  funext kind
  rfl

section

variable {r r' : Kind → RecognizerM (Option Tree)} {k : NodeKind} {s : State} {n m : Nat}

/-- A production runs alike with what runs the productions of less room alike. -/
theorem production_agrees (hr : ∀ k, Conserves aheadView producedTokens (r k))
    (hless : ∀ k' t, room (.rule k') t < room (.rule k) s → r' (.node k') t = r (.node k') t) :
    production r' (.node k) s = production r (.node k) s := by
  unfold production
  refine bind_run_congr rfl fun b u ho => ?_
  cases b with
  | false => rfl
  | true =>
    simp only [if_true]
    refine bind_run_congr rfl fun _ w he => bind_run_congr ?_ fun _ _ _ => rfl
    have hw : w = opened (.node k) s := by
      rw [openRule_run] at ho
      split at ho
      · cases ho
      · split at ho <;> cases ho
        cases he
        rfl
    subst hw
    exact body_agrees (Goal.wellFormed_ofBody k) fun ts k' t hk => hless k' t (hk.room_lt hr)

/-- What is no production is run alike by all. -/
theorem production_other {kind : Kind} (hk : ∀ k, kind ≠ .node k) :
    production r' kind = production r kind := by
  cases kind with
  | node k => exact absurd rfl (hk k)
  | token _ => rfl
  | endMark => rfl

/-- Every production has some room. -/
theorem room_pos : 0 < room (.rule k) s := by
  cases k <;> simp [room, rankOfGoal, rank]

/-- **A bound that leaves room for all to come changes nothing.** -/
theorem ruleWithin_stable (hn : room (.rule k) s ≤ n) (hm : room (.rule k) s ≤ m) :
    ruleWithin n (.node k) s = ruleWithin m (.node k) s := by
  induction n generalizing m k s with
  | zero => exact absurd hn (Nat.not_le.2 room_pos)
  | succ n ih =>
    cases m with
    | zero => exact absurd hm (Nat.not_le.2 room_pos)
    | succ m =>
      rw [ruleWithin_succ, ruleWithin_succ]
      exact production_agrees (ruleWithin_conserves m) fun k' t ht => ih (by omega) (by omega)

/-- The bound that `rule` takes leaves room for all to come. -/
theorem room_le_nesting : room (.rule k) s ≤ s.nesting := by
  have hsize := Reader.length_ahead_le s.reader
  have hgroups : groups s ≤ s.reader.ahead.length := List.countP_le_length
  have hrank : rank k ≤ 6 := by cases k <;> decide
  simp only [State.nesting, room, rankOfGoal]
  omega

/-- A production runs within the bound of the state it starts from. -/
theorem rule_run (kind : Kind) (s : State) : rule kind s = ruleWithin s.nesting kind s := rfl

/-- A production runs as within any bound that leaves room for all to come. -/
theorem rule_eq_ruleWithin (hn : room (.rule k) s ≤ n) :
    rule (.node k) s = ruleWithin n (.node k) s := by
  rw [rule_run]
  exact ruleWithin_stable room_le_nesting hn

/-- A production runs as productions do, with `rule` for those inside it. -/
theorem rule_eq_production : rule = production rule := by
  funext kind s
  obtain ⟨n, hn⟩ : ∃ n, s.nesting = n + 1 := ⟨4 * s.reader.size + 5, rfl⟩
  have hrun : rule kind s = production (ruleWithin n) kind s := by
    rw [rule_run, hn, ruleWithin_succ]
  cases kind with
  | node k =>
    rw [hrun]
    refine production_agrees rule_conserves fun k' t ht => ?_
    have hle : room (.rule k) s ≤ n + 1 := by
      rw [← hn]
      exact room_le_nesting
    exact (rule_eq_ruleWithin (by omega)).symm
  | token k => exact hrun
  | endMark => exact hrun

/-- **Nothing else runs productions as productions do**, by induction on the room. -/
theorem eq_rule_of_production (hr : r = production r) : r = rule := by
  have hnode : ∀ n k s, room (.rule k) s < n → r (.node k) s = rule (.node k) s := by
    intro n
    induction n with
    | zero => exact fun _ _ h => absurd h (Nat.not_lt_zero _)
    | succ n ih =>
      intro k s hroom
      rw [hr, rule_eq_production]
      exact production_agrees rule_conserves fun k' t ht => ih k' t (by omega)
  funext kind
  cases kind with
  | node k => exact funext fun s => hnode _ k s (Nat.lt_succ_self _)
  | token k =>
    rw [hr, rule_eq_production]
    exact production_other nofun
  | endMark =>
    rw [hr, rule_eq_production]
    exact production_other nofun

end

/-! ### Tails -/

section

variable {tail : List Designator} {s : State} {n m : Nat}

/-- A bound above the number of tokens with a width to come is never met by tails that read. -/
theorem tails_stable (hread : Reads rule tail) (hn : s.reader.ahead.length < n)
    (hm : s.reader.ahead.length < m) : tails rule tail n s = tails rule tail m s := by
  induction n generalizing m s with
  | zero => exact absurd hn (Nat.not_lt_zero _)
  | succ n ih =>
    cases m with
    | zero => exact absurd hm (Nat.not_lt_zero _)
    | succ m =>
      simp only [tails]
      refine bind_run_congr rfl fun _ _ hget => ?_
      cases hget
      split
      · rfl
      · refine bind_run_congr rfl fun f t hf => ?_
        cases f with
        | none => rfl
        | some more =>
          have hpos := List.length_pos_iff.2 (hread s more t hf)
          have hlen := congrArg List.length
            (sequence_conserves (v := aheadView) rule_conserves tail s _ t hf).2
          simp only [aheadView, matchedTokens, Option.getD_some, List.length_append] at hlen
          exact bind_run_congr (ih (by omega) (by omega)) fun _ _ _ => rfl

end

section

variable {r : Kind → RecognizerM (Option Tree)} {s t : State} {f : Forest}

/-- Steps that begin with tokens match tokens of these kinds first. -/
theorem exists_leaves {done : Forest} {ks : List TokenKind} {ds : List Designator}
    (h : stepsFrom r done (ks.map tok ++ ds) s = .ok (some f) t) :
    ∃ (ts : List Token) (g : Forest),
      f = done ++ ts.map .leaf ++ g ∧ ts.map Token.kind = ks.map .token := by
  induction ks generalizing done s with
  | nil =>
    obtain ⟨g, rfl⟩ := stepsFrom_prefix h
    exact ⟨[], g, by simp, rfl⟩
  | cons k ks ih =>
    rcases stepsFrom_cons_ok h with ⟨more, u, hd, h⟩ | ⟨_, _, _, hnone⟩
    · obtain ⟨a, ha, hmore⟩ := step_terminal_ok hd
      cases a with
      | none => cases hmore
      | some a =>
        cases hmore
        obtain ⟨ts, g, rfl, hts⟩ := ih h
        exact ⟨a :: ts, g, by simp, by simp [hts, (kind_of_terminal ha).1]⟩
    · cases hnone

/-- A repetition of the grammar has tails that begin with two tokens with a width. -/
theorem tail_eq {k : NodeKind} {head tail : List Designator}
    (hk : Grammar.body k = .repetition head tail) :
    ∃ a b ds, tail = [a, b].map tok ++ ds ∧ (Kind.token a).isZeroWidth = false ∧
      (Kind.token b).isZeroWidth = false := by
  cases k <;> cases hk <;> exact ⟨_, _, _, rfl, rfl, rfl⟩

/-- A tail of a repetition that matches reads two tokens with a width. -/
theorem two_le_length_of_tail {k : NodeKind} {head tail : List Designator}
    (hk : Grammar.body k = .repetition head tail)
    (h : sequence r tail s = .ok (some f) t) : 2 ≤ (Token.wide (Tree.forestTokens f)).length := by
  obtain ⟨a, b, ds, rfl, ha, hb⟩ := tail_eq hk
  obtain ⟨ts, g, rfl, hts⟩ := exists_leaves h
  have hlength : ts.length = 2 := by simpa using congrArg List.length hts
  obtain ⟨t, u, rfl⟩ := List.length_eq_two.1 hlength
  have hkind : t.kind = .token a ∧ u.kind = .token b := by simpa using hts
  simp [Token.wide, hkind, ha, hb]

end

/-- **Productions end.** Every production answers from every state: whatever was given back to the
reader, whatever the limit, the attempt spent or not. The bound on nested productions takes no part
in it, as nothing but `rule` runs productions as productions do. No chain of productions, each asked
for while the one before it is open, goes on for ever, and `Query` is asked for again only behind a
parenthesis that was read since. A tail of the grammar reads two tokens with a width whenever it
matches. Every repetition of well-formed steps answers whose tail reads a token with a width
whenever it matches, and the bound on the number of its tails takes no part in it. -/
theorem rule_terminates :
    (∀ k s, Answers (rule (.node k)) s) ∧
    (∀ r, r = production r ↔ r = rule) ∧
    (WellFounded fun inner outer : NodeKind × State =>
      Nests rule outer.1 outer.2 inner.1 inner.2) ∧
    (∀ s ts t,
      Reaches rule (.ofBody (Grammar.body .query)) (opened (.node .query) s) ts (.rule .query) t →
      inFront ts t.reader.stream = s.reader.stream ∧ ∃ p ∈ ts, p.kind = .token .parenOpen) ∧
    (∀ k head tail, Grammar.body k = .repetition head tail →
      ∀ s f t, sequence rule tail s = .ok (some f) t →
        inFront (Tree.forestTokens f) t.reader.stream = s.reader.stream ∧
          2 ≤ (Token.wide (Tree.forestTokens f)).length) ∧
    ∀ head tail, AllWellFormed head → AllWellFormed tail → Reads rule tail →
      ∀ s, Answers (repetition rule head tail) s ∧
        ∀ n m, s.reader.ahead.length < n → s.reader.ahead.length < m →
          tails rule tail n s = tails rule tail m s := by
  refine ⟨rule_answers, fun r => ⟨eq_rule_of_production, ?_⟩, wellFounded_nests rule_conserves,
    ?_, ?_, ?_⟩
  · rintro rfl
    exact rule_eq_production
  · intro s ts t h
    have hstream := h.conserves (v := streamView) rule_conserves
    exact ⟨hstream, h.exists_parenOpen rule_conserves⟩
  · intro k head tail hk s f t h
    refine ⟨?_, two_le_length_of_tail hk h⟩
    exact (sequence_conserves (v := streamView) rule_conserves tail s _ t h).2
  · intro head tail hh ht hread s
    refine ⟨?_, fun n m => tails_stable hread⟩
    have hends : (Call.repetition head tail).EndsWithin fun _ => True :=
      ⟨fun _ _ _ _ _ => trivial, hread.within⟩
    exact Call.answers (.repetition head tail) ⟨hh, ht⟩ hends trivial

end RecognizerM
end BoolQuery
