/-
# Runs under a limit and without one

A run under a limit takes the steps of the run without one, in lockstep, until a production is to be
opened beyond the limit. From then on the attempt is spent: the run goes on, as a failure is nothing
out of the ordinary, but it opens no production any more and only closes those that are open. What
the two runs have in common is said once, for every computation, by `Limited`.
-/

import BoolQuery.Proofs.Nesting.Events
import BoolQuery.Proofs.Ways
import BoolQuery.Recognizer.Totality

namespace BoolQuery

open Recognizer Grammar

namespace Recognizer

/-- The same state under a limit. -/
def State.within (limit : Nat) (s : State) : State := { s with limit := some limit }

/-- What every computation does between two states, with the events it shows: it closes as many
productions as it opens, and once the attempt is spent it opens none. -/
structure Passage (s s' : State) (es : List Event) : Prop where
  limit : s'.limit = s.limit
  depth : s'.depth = s.depth
  events : s'.events.toList = s.events.toList ++ es
  level : Level es
  spent : s.spent = true → s'.spent = true ∧ es.countP Event.opens = 0
  unlimited : s.limit = none → s.spent = false → s'.spent = false

namespace Passage

variable {s t u : State} {es fs : List Event}

/-- To do nothing is a passage. -/
theorem refl (s : State) : Passage s s [] :=
  ⟨rfl, rfl, (List.append_nil _).symm, rfl, fun h => ⟨h, rfl⟩, fun _ h => h⟩

/-- Passages one after the other are a passage. -/
theorem trans (h : Passage s t es) (h' : Passage t u fs) : Passage s u (es ++ fs) where
  limit := h'.limit.trans h.limit
  depth := h'.depth.trans h.depth
  events := by rw [h'.events, h.events, List.append_assoc]
  level := h.level.append h'.level
  spent hs := by
    obtain ⟨ht, hes⟩ := h.spent hs
    obtain ⟨hu, hfs⟩ := h'.spent ht
    exact ⟨hu, by rw [List.countP_append, hes, hfs]⟩
  unlimited hl hs := h'.unlimited (h.limit.trans hl) (h.unlimited hl hs)

/-- Two states tell the events between them. -/
theorem events_eq (h : Passage s t es) (h' : Passage s t fs) : es = fs :=
  List.append_cancel_left (h.events.symm.trans h'.events)

/-- A computation that touches neither the limit nor the open productions and shows at most that
tokens are given back. -/
theorem of_quiet (hl : t.limit = s.limit) (hd : t.depth = s.depth) (hs : t.spent = s.spent)
    (he : t.events.toList = s.events.toList ++ es) (hopens : es.countP Event.opens = 0)
    (hcloses : es.countP Event.closes = 0) : Passage s t es :=
  ⟨hl, hd, he, hopens.trans hcloses.symm, fun h => ⟨hs.trans h, hopens⟩, fun _ h => hs.trans h⟩

end Passage

/-- How a run from a state without limit, to `s'` and with the events `es`, and the run from the
same state under the limit, to `t'`, are related. -/
inductive Parallel {α : Type} (limit : Nat) (s : State) (a : α) (s' : State) (b : α) (t' : State)
    (es : List Event) : Prop
  /-- The limit was not reached, and nothing differs. -/
  | same (hfits : s.depth + nesting es ≤ limit) (hb : b = a) (ht : t' = s'.within limit)
  /-- The limit was in the way of one production. Before it nothing differs, and behind it no
  production is opened. -/
  | tripped (before : List Event) (rule : Kind) (after rest : List Event)
      (hes : es = before ++ .enter rule :: after) (hfits : s.depth + nesting before ≤ limit)
      (hfull : s.depth + before.countP Event.opens = limit + before.countP Event.closes)
      (hspent : t'.spent = true)
      (hevents : t'.events.toList = s.events.toList ++ (before ++ rest))
      (hrest : rest.countP Event.opens = 0)

end Recognizer

namespace RecognizerM

variable {α β : Type}

/-- The computation keeps the law of passages, and runs in lockstep under a limit and without
one. -/
structure Limited (act : RecognizerM α) : Prop where
  passage : ∀ s a s', act s = .ok a s' → ∃ es, Passage s s' es
  lockstep : ∀ limit s a s' b t' es, s.limit = none → s.spent = false → s.depth ≤ limit →
    act s = .ok a s' → act (s.within limit) = .ok b t' → Passage s s' es →
    Parallel limit s a s' b t' es

namespace Limited

/-- An answer given at once is limited. -/
theorem pure (a : α) : Limited (Pure.pure a : RecognizerM α) := by
  constructor
  · intro s b s' h
    cases h
    exact ⟨[], .refl s⟩
  · intro limit s b s' c t' es _ _ hd h h' hes
    cases h
    cases h'
    have hnil : es = [] := by simpa using hes.events
    exact .same (by simpa [hnil, nesting] using hd) rfl rfl

/-- One step of lockstep after the other. -/
theorem bind {x : RecognizerM α} {f : α → RecognizerM β} (hx : Limited x)
    (hf : ∀ a, Limited (f a)) : Limited (x >>= f) := by
  constructor
  · intro s c s' h
    obtain ⟨a, u, ha, hc⟩ := bind_ok h
    obtain ⟨es, hes⟩ := hx.passage s a u ha
    obtain ⟨fs, hfs⟩ := (hf a).passage u c s' hc
    exact ⟨es ++ fs, hes.trans hfs⟩
  · intro limit s c s' d t' gs hl hs hd h h' hgs
    obtain ⟨a, u, ha, hc⟩ := bind_ok h
    obtain ⟨b, v, hb, hd'⟩ := bind_ok h'
    obtain ⟨es, hes⟩ := hx.passage s a u ha
    obtain ⟨fs, hfs⟩ := (hf a).passage u c s' hc
    obtain rfl : gs = es ++ fs := hgs.events_eq (hes.trans hfs)
    rcases hx.lockstep limit s a u b v es hl hs hd ha hb hes with
      ⟨hfits, rfl, rfl⟩ | ⟨before, rule, after, rest, rfl, hfits, hfull, hspent, hev, hrest⟩
    · have hud : u.depth ≤ limit := hes.depth ▸ hd
      rcases (hf b).lockstep limit u c s' d t' fs (hes.limit.trans hl) (hes.unlimited hl hs) hud hc
        hd' hfs with ⟨hfits', rfl, rfl⟩ | ⟨before, rule, after, rest, rfl, hfits', hfull, hspent,
          hev, hrest⟩
      · refine .same ?_ rfl rfl
        rw [nesting_append hes.level]
        rw [hes.depth] at hfits'
        omega
      · refine .tripped (es ++ before) rule after rest (List.append_assoc ..).symm ?_ ?_ hspent ?_
          hrest
        · rw [nesting_append hes.level]
          rw [hes.depth] at hfits'
          omega
        · have hlevel : es.countP Event.opens = es.countP Event.closes := hes.level
          rw [hes.depth] at hfull
          rw [List.countP_append, List.countP_append]
          omega
        · rw [hev, hes.events, List.append_assoc, List.append_assoc]
    · -- The attempt is spent, so what follows opens nothing.
      obtain ⟨ks, hks⟩ := (hf b).passage v d t' hd'
      obtain ⟨hspent', hopens⟩ := hks.spent hspent
      refine .tripped before rule (after ++ fs) (rest ++ ks) ?_ hfits hfull hspent' ?_ ?_
      · rw [List.append_assoc, List.cons_append]
      · rw [hks.events, hev]
        simp only [List.append_assoc]
      · rw [List.countP_append, hrest, hopens]

/-- A computation that may look at its state, as long as the limit is none of its concern. -/
theorem get {f : State → RecognizerM α} (hf : ∀ s, Limited (f s))
    (hwithin : ∀ limit s, s.spent = false → f (s.within limit) = f s) :
    Limited (MonadState.get >>= f) := by
  constructor
  · intro s a s' h
    rw [bind_run (get_run s)] at h
    exact (hf s).passage s a s' h
  · intro limit s a s' b t' es hl hs hd h h' hes
    rw [bind_run (get_run s)] at h
    rw [bind_run (get_run (s.within limit)), hwithin limit s hs] at h'
    exact (hf s).lockstep limit s a s' b t' es hl hs hd h h' hes

/-- A computation that opens no production, and does the same under a limit. -/
theorem of_quiet {act : RecognizerM α}
    (hact : ∀ s a s', act s = .ok a s' → (∃ es, es.countP Event.opens = 0 ∧ Passage s s' es) ∧
      ∀ limit, act (s.within limit) = .ok a (s'.within limit)) : Limited act := by
  constructor
  · intro s a s' h
    obtain ⟨⟨es, -, hes⟩, -⟩ := hact s a s' h
    exact ⟨es, hes⟩
  · intro limit s a s' b t' es hl hs hd h h' hes
    obtain ⟨⟨fs, hopens, hfs⟩, hwithin⟩ := hact s a s' h
    obtain rfl : es = fs := hes.events_eq hfs
    rw [hwithin limit] at h'
    cases h'
    refine .same ?_ rfl rfl
    rw [nesting, crest_eq_zero hopens]
    exact hd

end Limited

/-! ### Single steps -/

/-- Asking for a token is limited. -/
theorem terminal_limited (kind : Kind) : Limited (terminal kind) := by
  cases kind with
  | token k =>
    refine .of_quiet fun s a s' h => ?_
    rw [terminal_run] at h
    split at h
    · rename_i hk
      cases h
      refine ⟨⟨[], rfl, .of_quiet rfl rfl rfl (List.append_nil _).symm rfl rfl⟩, fun limit => ?_⟩
      rw [terminal_run]
      exact if_pos hk
    · rename_i hk
      cases h
      refine ⟨⟨[], rfl, .of_quiet rfl rfl rfl (List.append_nil _).symm rfl rfl⟩, fun limit => ?_⟩
      rw [terminal_run]
      exact if_neg hk
  | node k => exact .of_quiet fun s a s' h => by cases h
  | endMark => exact .of_quiet fun s a s' h => by cases h

/-- Giving tokens back is limited. -/
theorem unread_limited (f : Forest) : Limited (unread f) := by
  refine .of_quiet fun s a s' h => ?_
  rw [unread_run] at h
  split at h
  · rename_i hf
    cases h
    refine ⟨⟨[], rfl, .refl _⟩, fun limit => ?_⟩
    rw [unread_run, if_pos hf]
  · rename_i hf
    cases h
    refine ⟨⟨[.backtrack (Tree.forestTokens f)], rfl, ?_⟩, fun limit => ?_⟩
    · exact .of_quiet rfl rfl rfl Array.toList_push rfl rfl
    · rw [unread_run, if_neg hf]
      rfl

/-- All ways of matching are made of limited steps. -/
theorem limited_compositional : Compositional fun {α} => Limited (α := α) where
  pure := .pure
  bind := .bind
  terminal := terminal_limited
  unread := unread_limited
  spent hx := by
    refine .get (fun s => ?_) fun _ _ _ => rfl
    split
    · exact .pure _
    · exact hx
  room hx := .get (fun _ => hx _) fun _ _ _ => rfl
  endless := .of_quiet fun s a s' h => by cases h

/-! ### Productions -/

/-- Without a limit every production is opened. -/
theorem openRule_unlimited {s s' : State} {b : Bool} (hl : s.limit = none) (hs : s.spent = false)
    (h : openRule s = .ok b s') : b = true := by
  rw [openRule_run, hs, hl] at h
  cases h
  rfl

/-- Under a limit a production is opened if not too many are open, and otherwise the attempt is
spent. -/
theorem openRule_within_ok {limit : Nat} {s t : State} {b : Bool} (hs : s.spent = false)
    (h : openRule (s.within limit) = .ok b t) :
    (b = false ∧ limit ≤ s.depth ∧ t = { s.within limit with spent := true }) ∨
      (b = true ∧ s.depth < limit) := by
  have hspent : (s.within limit).spent = false := hs
  rw [openRule_run, hspent, if_neg Bool.false_ne_true] at h
  split at h
  · rename_i hlimit
    cases h
    exact .inl ⟨rfl, of_decide_eq_true hlimit, rfl⟩
  · rename_i hlimit
    cases h
    exact .inr ⟨rfl, Nat.lt_of_not_le fun hle => hlimit (decide_eq_true hle)⟩

/-- A production that may not be opened leaves a passage without events. -/
theorem passage_of_openRule {s s' : State} (h : openRule s = .ok false s') : Passage s s' [] := by
  rw [openRule_run] at h
  split at h
  · cases h
    exact .refl _
  · split at h
    · rename_i hspent hlimit
      cases h
      refine ⟨rfl, rfl, (List.append_nil _).symm, rfl, fun _ => ⟨rfl, rfl⟩, fun hl _ => ?_⟩
      rw [hl] at hlimit
      cases hlimit
    · cases h

/-- A production is opened only while the attempt is not spent. -/
theorem spent_of_openRule {s s' : State} (h : openRule s = .ok true s') : s.spent = false := by
  rw [openRule_run] at h
  split at h
  · cases h
  · rename_i hs
    exact Bool.not_eq_true _ ▸ hs

/-- A production is a passage around the passage of its right-hand side. -/
theorem passage_of_body {k : NodeKind} {s u : State} {es : List Event} (hs : s.spent = false)
    (h : Passage (opened (.node k) s) u es) (f : Option Forest) :
    Passage s (closed k f u) (Event.around k f es) where
  limit := h.limit
  depth := by
    have hdepth := h.depth
    simp only [opened, closed] at hdepth ⊢
    omega
  events := toList_around f h.events
  level := h.level.around k f
  spent hspent := by
    rw [hs] at hspent
    cases hspent
  unlimited := h.unlimited

/-- Productions within a bound are limited: by induction on the bound. -/
theorem ruleWithin_limited (bound : Nat) (kind : Kind) : Limited (ruleWithin bound kind) := by
  induction bound generalizing kind with
  | zero => exact .of_quiet fun s a s' h => by cases h
  | succ bound ih =>
    constructor
    · intro s a s' h
      rcases ruleWithin_succ_ok h with ⟨ho, rfl⟩ | ⟨k, f, u, rfl, ho, hf, rfl, rfl⟩
      · exact ⟨[], passage_of_openRule ho⟩
      · obtain ⟨es, hes⟩ := (limited_compositional.body ih (Grammar.body k)).passage _ f u hf
        exact ⟨_, passage_of_body (spent_of_openRule ho) hes f⟩
    · intro limit s a s' b t' gs hl hs hd h h' hgs
      rcases ruleWithin_succ_ok h with ⟨ho, -⟩ | ⟨k, f, u, rfl, -, hf, rfl, rfl⟩
      · exact absurd (openRule_unlimited hl hs ho) Bool.false_ne_true
      obtain ⟨es, hes⟩ := (limited_compositional.body ih (Grammar.body k)).passage _ f u hf
      obtain rfl : gs = Event.around k f es := hgs.events_eq (passage_of_body hs hes f)
      rcases ruleWithin_succ_ok h' with ⟨ho, -⟩ | ⟨m, g, v, hk, ho, hg, rfl, rfl⟩
      · -- The production itself is beyond the limit.
        rcases openRule_within_ok hs ho with ⟨-, hle, rfl⟩ | ⟨hb, -⟩
        · refine .tripped [] (.node k) (es ++ [.closing k f]) [] rfl ?_ ?_ rfl ?_ rfl
          · exact hd
          · exact Nat.le_antisymm hd hle
          · exact (List.append_nil _).symm
        · cases hb
      · obtain rfl : k = m := by
          cases hk
          rfl
        rcases openRule_within_ok hs ho with ⟨hb, -⟩ | ⟨-, hlt⟩
        · cases hb
        have hbody := limited_compositional.body ih (Grammar.body k)
        rcases hbody.lockstep limit (opened (.node k) s) f u g v es hl hs hlt hf hg hes with
          ⟨hfits, rfl, rfl⟩ | ⟨before, rule, after, rest, rfl, hfits, hfull, hspent, hev, hrest⟩
        · refine .same ?_ rfl rfl
          rw [nesting_around hes.level]
          simp only [opened] at hfits
          omega
        · refine .tripped (.enter (.node k) :: before) rule (after ++ [.closing k f])
            (rest ++ [.closing k g]) ?_ ?_ ?_ hspent ?_ ?_
          · simp only [Event.around, List.append_assoc, List.cons_append]
          · simp only [nesting, crest_cons, opened, Event.opens_enter, Event.closes_enter] at hfits ⊢
            simp only [if_true, Bool.false_eq_true, if_false]
            omega
          · simp only [opened, List.countP_cons, Event.opens_enter, Event.closes_enter] at hfull ⊢
            simp only [if_true, Bool.false_eq_true, if_false]
            omega
          · rw [toList_closed, hev, opened, Array.toList_push]
            simp only [List.append_assoc, List.cons_append, List.nil_append]
          · simp only [List.countP_append, hrest, List.countP_singleton, Event.opens_closing]
            rfl

/-- Productions are limited. -/
theorem rule_limited (kind : Kind) : Limited (rule kind) := by
  unfold rule
  exact .get (fun s => ruleWithin_limited _ kind) fun limit s _ => rfl

end RecognizerM
end BoolQuery
