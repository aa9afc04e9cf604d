/-
# What an attempt on a line shows

Whatever the limit, and also after it has tripped, the events of an attempt are nested like
brackets: `Query` begins, whatever it asks for shows its own events, and `Query` matches or fails.
Only if not even `Query` may be opened there are none. What is given back in between is always a
stretch of the tokens of the line, since an attempt stands at a place of the line and has behind it
what it read (`Behind`).

So a trace is indented behind whatever attempts as it was before them (`recognizeTraced_bracketed`).
-/

import BoolQuery.Proofs.Lossless
import BoolQuery.Proofs.Nesting.Brackets

namespace BoolQuery

namespace Recognizer

/-! ### Attempts on a line -/

/-- What an attempt on a line shows between two states. -/
structure Shows (line : String) (s s' : State) (es : List Event) : Prop where
  events : s'.events.toList = s.events.toList ++ es
  bracketed : Bracketed es
  backtracks : ∀ ts, .backtrack ts ∈ es → ts ≠ [] ∧ ts <:+: lex line

namespace Shows

variable {line : String} {s t u : State} {es fs : List Event}

/-- To do nothing shows nothing. -/
theorem refl (s : State) : Shows line s s [] := ⟨(List.append_nil _).symm, .nil, nofun⟩

/-- What is shown one after the other is shown together. -/
theorem trans (h : Shows line s t es) (h' : Shows line t u fs) : Shows line s u (es ++ fs) where
  events := by rw [h'.events, h.events, List.append_assoc]
  bracketed := h.bracketed.append h'.bracketed
  backtracks ts hts := (List.mem_append.1 hts).elim (h.backtracks ts) (h'.backtracks ts)

/-- A production shows what its right-hand side shows, between its beginning and its end. -/
theorem around {k : NodeKind} (h : Shows line (RecognizerM.opened (.node k) s) u es)
    (f : Option Forest) : Shows line s (RecognizerM.closed k f u) (Event.around k f es) where
  events := RecognizerM.toList_around f h.events
  bracketed := h.bracketed.around k f
  backtracks ts hts := by
    refine h.backtracks ts ?_
    cases f <;> simpa [Event.around, Event.closing] using hts

end Shows

/-- In an attempt on a line `done` was read from place `i` on. -/
structure Behind (line : String) (i : Nat) (done : Forest) (s : State) : Prop where
  stand : StandAt (tokenAt line) i (Tree.forestTokens done)
  stream : s.reader.stream = fun n => tokenAt line (i + (Tree.forestTokens done).length + n)
  derivations : ∀ t ∈ done, t.IsDerivation
  wide : ∀ t ∈ done, t.kind.isZeroWidth = false

namespace Behind

variable {line : String} {i : Nat} {done more : Forest} {s u : State}

/-- At its place an attempt has nothing behind it yet. -/
theorem nil (h : s.reader.stream = fun n => tokenAt line (i + n)) : Behind line i [] s :=
  ⟨standAt_nil, h, List.forall_mem_nil _, List.forall_mem_nil _⟩

/-- What was read before, and what is taken next. -/
theorem append (h : Behind line i done s)
    (htaken : Reader.inFront (Tree.forestTokens more) u.reader.stream = s.reader.stream)
    (hd : ∀ t ∈ more, t.IsDerivation) (hwide : ∀ t ∈ more, t.kind.isZeroWidth = false) :
    Behind line i (done ++ more) u := by
  obtain ⟨hmore, hu⟩ := standAt_of_inFront (htaken.trans h.stream)
  refine ⟨?_, ?_, List.forall_mem_append.2 ⟨h.derivations, hd⟩,
    List.forall_mem_append.2 ⟨h.wide, hwide⟩⟩
  · rw [Tree.forestTokens_append, standAt_append]
    exact ⟨h.stand, hmore⟩
  · rw [hu, Tree.forestTokens_append, List.length_append, ← Nat.add_assoc]

/-- What was read is a stretch of the line. -/
theorem isInfix (h : Behind line i done s) : Tree.forestTokens done <:+: lex line := by
  have hwide : ∀ t ∈ Tree.forestTokens done, t.kind.isZeroWidth = false := by
    intro t ht
    rw [Tree.forestTokens_eq_flatMap, List.mem_flatMap] at ht
    obtain ⟨u, hu, ht⟩ := ht
    exact (h.derivations u hu).isZeroWidth (h.wide u hu) t ht
  refine List.IsInfix.trans ?_ (List.drop_suffix i (lex line)).isInfix
  rw [drop_lex_of_standAt h.stand hwide]
  exact (List.prefix_append _ _).isInfix

/-- Trees that were read have tokens. -/
theorem tokens_ne_nil (h : Behind line i done s) (hne : done ≠ []) :
    Tree.forestTokens done ≠ [] := by
  obtain ⟨t, ts, rfl⟩ := List.exists_cons_of_ne_nil hne
  rw [Tree.forestTokens_cons]
  exact List.append_ne_nil_of_left_ne_nil (h.derivations t (.head _)).tokens_ne_nil _

end Behind

end Recognizer

namespace RecognizerM

open Recognizer Grammar

variable {line : String}

/-- Wherever in a line the computation starts, it shows bracketed events, and gives back nothing but
stretches of the line. -/
def Traced (line : String) {α : Type} (act : RecognizerM α) : Prop :=
  ∀ i s a s', s.reader.stream = (fun n => tokenAt line (i + n)) → act s = .ok a s' →
    ∃ es, Shows line s s' es

/-- A computation that conserves the tokens to come leaves a place of the line again, so what
follows it is traced from there. -/
theorem Traced.followed {α : Type} {taken : α → List Token} {act : RecognizerM α}
    (ht : Traced line act) (hc : Conserves Reader.streamView taken act) {i : Nat} {s u s' : State}
    {a : α} (hs : s.reader.stream = fun n => tokenAt line (i + n)) (h : act s = .ok a u)
    (hnext : ∀ j, u.reader.stream = (fun n => tokenAt line (j + n)) → ∃ es, Shows line u s' es) :
    ∃ es, Shows line s s' es := by
  obtain ⟨es, hes⟩ := ht i s a u hs h
  obtain ⟨-, hu⟩ := standAt_of_inFront ((hc s a u h).2.trans hs)
  obtain ⟨fs, hfs⟩ := hnext _ hu
  exact ⟨es ++ fs, hes.trans hfs⟩

/-- Asking for a token shows nothing. -/
theorem terminal_traced (kind : Kind) : Traced line (terminal kind) := by
  intro i s a s' _ h
  cases kind with
  | token k =>
    rw [terminal_run] at h
    split at h <;>
    · cases h
      exact ⟨[], (List.append_nil _).symm, .nil, nofun⟩
  | node k => cases h
  | endMark => cases h

/-- Giving back what was read shows a stretch of the line. -/
theorem unread_traced {i : Nat} {done : Forest} {s s' : State} {a : Unit}
    (hs : Behind line i done s) (h : unread done s = .ok a s') : ∃ es, Shows line s s' es := by
  rw [unread_run] at h
  split at h
  · cases h
    exact ⟨[], .refl s⟩
  · rename_i hne
    cases h
    refine ⟨_, Array.toList_push, .backtrack _, fun ts hts => ?_⟩
    obtain rfl := Event.backtrack.inj (List.mem_singleton.1 hts)
    exact ⟨hs.tokens_ne_nil hne, hs.isInfix⟩

section

variable {rule : Kind → RecognizerM (Option Tree)}

/-- What is known of productions, to trace what asks for them. -/
structure RuleTraced (line : String) (rule : Kind → RecognizerM (Option Tree)) : Prop where
  conserves : ∀ k, Conserves Reader.streamView producedTokens (rule k)
  derives : RuleDerives rule
  traced : ∀ k, Traced line (rule k)

mutual

/-- A step is traced: by recursion over the step, with `stepsFrom_traced` for what is optional. -/
theorem step_traced (hr : RuleTraced line rule) :
    ∀ d, d.isWide = true → Traced line (step rule d)
  | .terminal kind, _ => by
    intro i s a s' hs h
    obtain ⟨t, ht, -⟩ := step_terminal_ok h
    exact terminal_traced kind i s t s' hs ht
  | .rule kind, _ => by
    intro i s a s' hs h
    obtain ⟨t, ht, -⟩ := step_rule_ok h
    exact hr.traced kind i s t s' hs ht
  | .optional ds, hwide => by
    intro i s a s' hs h
    rw [Designator.isWide] at hwide
    obtain ⟨f, hf, -⟩ := step_optional_ok h
    exact stepsFrom_traced hr ds hwide i [] s f s' (.nil hs) hf

/-- Steps in order are traced, with what was read before behind them. -/
theorem stepsFrom_traced (hr : RuleTraced line rule) :
    ∀ ds, allWide ds = true → ∀ i done s a s', Behind line i done s →
      stepsFrom rule done ds s = .ok a s' → ∃ es, Shows line s s' es
  | [], _, i, done, s, a, s', _, h => by
    obtain ⟨-, rfl⟩ := stepsFrom_nil_ok h
    exact ⟨[], .refl _⟩
  | d :: ds, hwide, i, done, s, a, s', hs, h => by
    rw [allWide, Bool.and_eq_true] at hwide
    rcases stepsFrom_cons_ok h with ⟨more, u, hf, h⟩ | ⟨u, hf, hu, -⟩
    · obtain ⟨es, hes⟩ := step_traced hr d hwide.1 _ s (some more) u hs.stream hf
      have hread := step_reads hr.derives d s more u hf
      have hkinds := Designator.isZeroWidth_of_reads d _ hwide.1 hread.kinds
      have hbehind : Behind line i (done ++ more) u :=
        hs.append (step_conserves hr.conserves d s _ u hf).2 hread.derivations
          fun t ht => hkinds t.kind (List.mem_map_of_mem ht)
      obtain ⟨fs, hfs⟩ := stepsFrom_traced hr ds hwide.2 i (done ++ more) u a s' hbehind h
      exact ⟨es ++ fs, hes.trans hfs⟩
    · obtain ⟨es, hes⟩ := step_traced hr d hwide.1 _ s none u hs.stream hf
      -- The step that missed left the reader behind what was read before it.
      have hu' := (step_conserves hr.conserves d s _ u hf).2.trans hs.stream
      have hbehind : Behind line i done u := ⟨hs.stand, hu', hs.derivations, hs.wide⟩
      obtain ⟨fs, hfs⟩ := unread_traced hbehind hu
      exact ⟨es ++ fs, hes.trans hfs⟩

end

/-- A sequence is traced. -/
theorem sequence_traced (hr : RuleTraced line rule) {ds : List Designator}
    (hwide : allWide ds = true) : Traced line (sequence rule ds) := by
  intro i s a s' hs h
  exact stepsFrom_traced hr ds hwide i [] s a s' (.nil hs) h

/-- A choice is traced if its alternatives ask for no kind without width. -/
theorem choice_traced (hr : RuleTraced line rule) {alternatives : List (List Designator)}
    (hwide : alternatives.all allWide = true) : Traced line (choice rule alternatives) := by
  induction alternatives with
  | nil =>
    intro i s a s' _ h
    obtain ⟨-, rfl⟩ := choice_nil_ok h
    exact ⟨[], .refl _⟩
  | cons ds rest ih =>
    rw [List.all_cons, Bool.and_eq_true] at hwide
    intro i s a s' hs h
    rcases choice_cons_ok h with ⟨f, hf, -⟩ | ⟨u, hf, h⟩
    · exact sequence_traced hr hwide.1 i s (some f) s' hs hf
    · refine (sequence_traced hr hwide.1).followed (sequence_conserves hr.conserves ds) hs hf ?_
      exact fun j hu => ih hwide.2 j u a s' hu h

/-- The tails of a repetition are traced. -/
theorem tails_traced (hr : RuleTraced line rule) {tail : List Designator}
    (hwide : allWide tail = true) (bound : Nat) : Traced line (tails rule tail bound) := by
  induction bound with
  | zero =>
    intro i s a s' _ h
    cases h
  | succ bound ih =>
    intro i s a s' hs h
    rcases tails_succ_ok h with ⟨-, -, rfl⟩ | ⟨-, hf, -⟩ | ⟨more, u, g, -, hf, hg, -⟩
    · exact ⟨[], .refl _⟩
    · exact sequence_traced hr hwide i s none s' hs hf
    · refine (sequence_traced hr hwide).followed (sequence_conserves hr.conserves tail) hs hf ?_
      exact fun j hu => ih j u g s' hu hg

/-- A repetition is traced. -/
theorem repetition_traced (hr : RuleTraced line rule) {head tail : List Designator}
    (hhead : allWide head = true) (htail : allWide tail = true) :
    Traced line (repetition rule head tail) := by
  intro i s a s' hs h
  rcases repetition_ok h with ⟨hf, -⟩ | ⟨first, u, g, hf, hg, -⟩
  · exact sequence_traced hr hhead i s none s' hs hf
  · refine (sequence_traced hr hhead).followed (sequence_conserves hr.conserves head) hs hf ?_
    exact fun j hu => tails_traced hr htail _ j u g s' hu hg

/-- The body of a production is traced. -/
theorem body_traced (hr : RuleTraced line rule) {b : Body} (hwide : b.isWide = true) :
    Traced line (body rule b) := by
  cases b with
  | choice alternatives => exact choice_traced hr hwide
  | repetition head tail =>
    rw [Body.isWide, Bool.and_eq_true] at hwide
    exact repetition_traced hr hwide.1 hwide.2

end

/-- A production that is not opened shows nothing. -/
theorem shows_of_openRule {s s' : State} (h : openRule s = .ok false s') : Shows line s s' [] :=
  ⟨(passage_of_openRule h).events, .nil, nofun⟩

/-- Productions within a bound are traced: by induction on the bound. -/
theorem ruleWithin_traced (bound : Nat) : RuleTraced line (ruleWithin bound) := by
  refine ⟨ruleWithin_conserves bound, ruleWithin_derives bound, ?_⟩
  induction bound with
  | zero =>
    intro kind i s a s' _ h
    cases h
  | succ bound ih =>
    intro kind i s a s' hs h
    rcases ruleWithin_succ_ok h with ⟨ho, -⟩ | ⟨k, f, u, rfl, -, hf, -, rfl⟩
    · exact ⟨[], shows_of_openRule ho⟩
    · have hr : RuleTraced line (ruleWithin bound) :=
        ⟨ruleWithin_conserves bound, ruleWithin_derives bound, ih⟩
      obtain ⟨es, hes⟩ := body_traced hr (isWide_body k) i (opened (.node k) s) f u hs hf
      exact ⟨_, hes.around f⟩

/-- **A production on a line is not opened and shows nothing, or it shows its beginning, something
bracketed, and its end.** -/
theorem rule_shows {k : NodeKind} {i : Nat} {s s' : State} {a : Option Tree}
    (hs : s.reader.stream = fun n => tokenAt line (i + n))
    (h : rule (.node k) s = .ok a s') :
    (openRule s = .ok false s' ∧ a = none ∧ Shows line s s' []) ∨
    (openRule s = .ok true { s with depth := s.depth + 1 } ∧
      ∃ f es, a = f.map (.node k) ∧ Shows line s s' (Event.around k f es)) := by
  obtain ⟨_, _, hg, h⟩ := bind_ok h
  cases hg
  rcases ruleWithin_succ_ok h with ⟨ho, ha⟩ | ⟨_, f, u, hk, ho, hf, ha, rfl⟩
  · exact .inl ⟨ho, ha, shows_of_openRule ho⟩
  · cases hk
    obtain ⟨es, hes⟩ :=
      body_traced (ruleWithin_traced _) (isWide_body k) i (opened (.node k) s) f u hs hf
    exact .inr ⟨ho, f, es, ha, hes.around f⟩

end RecognizerM

open Recognizer RecognizerM Report

/-- At the start of a line the limit 0, and no other, is in the way of a production. -/
theorem openRule_start_ok {limit : Option Nat} {line : String} {b : Bool} {s : State}
    (h : openRule (State.start line limit) = .ok b s) : b = false ↔ limit = some 0 := by
  rw [openRule_run, if_neg (by exact Bool.false_ne_true)] at h
  split at h
  · rename_i hlimit
    cases h
    obtain ⟨n, rfl, hn⟩ := (Option.any_eq_true _ _).1 hlimit
    have hle : n ≤ 0 := of_decide_eq_true hn
    simp [Nat.le_zero.1 hle]
  · rename_i hlimit
    cases h
    refine iff_of_false Bool.noConfusion ?_
    rintro rfl
    exact hlimit rfl

/-- The events of an attempt on a line, and what its answer has to do with them. -/
theorem exists_shows (limit : Option Nat) (line : String) :
    ∃ root? s es, recognizeTraced limit line = (s.answer root?, es) ∧
      Shows line (State.start line limit) s es ∧
      ((limit = some 0 ∧ root? = none ∧ es = []) ∨
        (limit ≠ some 0 ∧ ∃ f inner, root? = f.map (.node .query) ∧
          es = Event.around .query f inner)) := by
  obtain ⟨root?, s, h, htraced⟩ := exists_recognizeTraced limit line
  have hstart : (State.start line limit).reader.stream = fun n => tokenAt line (0 + n) := by
    simp only [Nat.zero_add]
    exact stream_ofString line
  rcases rule_shows hstart h with ⟨ho, hnone, hshows⟩ | ⟨ho, f, inner, hroot, hshows⟩
  · have hevents : s.events.toList = [] := hshows.events
    exact ⟨root?, s, [], by rw [htraced, hevents], hshows,
      .inl ⟨(openRule_start_ok ho).1 rfl, hnone, rfl⟩⟩
  · have hevents : s.events.toList = Event.around .query f inner := hshows.events
    have hlimit : limit ≠ some 0 := fun hzero => by cases (openRule_start_ok ho).2 hzero
    exact ⟨root?, s, _, by rw [htraced, hevents], hshows, .inr ⟨hlimit, f, inner, hroot, rfl⟩⟩

/-- An attempt that comes to a tree had `Query` answer with it. -/
theorem eq_some_of_answer {s : State} {root? : Option Tree} {root : Tree}
    (h : s.answer root? = .ok root) : root? = some root := by
  cases hs : s.spent with
  | true =>
    rw [State.answer_spent hs] at h
    cases h
  | false =>
    cases root? with
    | none =>
      rw [State.answer_none hs] at h
      cases h
    | some found =>
      rw [State.answer_some hs] at h
      split at h
      · cases h
        rfl
      · cases h

/-- The events of any number of attempts, one behind the other. -/
theorem bracketed_runs (runs : List (Option Nat × String)) :
    Bracketed (runs.flatMap fun run => (recognizeTraced run.1 run.2).2) := by
  induction runs with
  | nil => exact .nil
  | cons run runs ih =>
    obtain ⟨root?, s, es, htraced, hshows, -⟩ := exists_shows run.1 run.2
    rw [List.flatMap_cons, htraced]
    exact hshows.bracketed.append ih

/-- **The events of every attempt are nested like brackets**, under whatever limit. There are none
exactly under the limit 0, which lets no production open. Otherwise `Query` begins in front of all
others, and behind them it matches or fails; if the line is accepted it matches with the tree, and
the text of that is the line. The tokens that are given back are always some, and stand in the line
side by side. So a trace is indented behind any number of attempts as it was before them, and
wherever a production is closed it is indented further than that. -/
theorem recognizeTraced_bracketed :
    (∀ (limit : Option Nat) (line : String),
      let es := (recognizeTraced limit line).2
      Bracketed es ∧
      (es = [] ↔ limit = some 0) ∧
      (limit ≠ some 0 → ∃ inner last, es = .enter (.node .query) :: (inner ++ [last]) ∧
        (last = .failed (.node .query) ∨ ∃ root, last = .matched root ∧ root.kind = .node .query)) ∧
      (∀ root, recognize limit line = .ok root →
        root.text = line ∧ ∃ inner, es = .enter (.node .query) :: (inner ++ [.matched root])) ∧
      ∀ ts, .backtrack ts ∈ es → ts ≠ [] ∧ ts <:+: lex line) ∧
    ∀ (style : TraceStyle) (trace : Trace) (runs : List (Option Nat × String)),
      let es := runs.flatMap fun run => (recognizeTraced run.1 run.2).2
      (trace.recordAll style es).depth = trace.depth ∧
      ∀ seen e rest, es = seen ++ e :: rest → e.closes = true →
        trace.depth < (trace.recordAll style seen).depth := by
  constructor
  · intro limit line
    obtain ⟨root?, s, es, htraced, hshows, hcases⟩ := exists_shows limit line
    simp only [recognize, htraced]
    refine ⟨hshows.bracketed, ?_, ?_, ?_, hshows.backtracks⟩
    · rcases hcases with ⟨hlimit, -, hes⟩ | ⟨hlimit, f, inner, -, hes⟩
      · exact iff_of_true hes hlimit
      · rw [hes, Event.around]
        exact iff_of_false (List.cons_ne_nil _ _) hlimit
    · intro hlimit
      rcases hcases with ⟨hzero, -⟩ | ⟨-, f, inner, -, hes⟩
      · exact absurd hzero hlimit
      · refine ⟨inner, _, hes, ?_⟩
        cases f with
        | none => exact .inl rfl
        | some children => exact .inr ⟨_, rfl, rfl⟩
    · intro root hroot
      have haccepted : recognize limit line = .ok root := by rw [recognize, htraced, hroot]
      refine ⟨(seamed_of_recognize (recognize_of_limited haccepted)).2.2, ?_⟩
      rw [eq_some_of_answer hroot] at hcases
      rcases hcases with ⟨-, hnone, -⟩ | ⟨-, f, inner, hsome, hes⟩
      · cases hnone
      · cases f with
        | none => cases hsome
        | some children =>
          cases hsome
          exact ⟨inner, hes⟩
  · intro style trace runs
    have hbracketed := bracketed_runs runs
    refine ⟨Trace.depth_recordAll_of_bracketed style trace hbracketed, ?_⟩
    intro seen e rest hes he
    rw [hes] at hbracketed
    exact Trace.depth_lt_of_bracketed style trace hbracketed he

/-- On `(a` under a limit of nine the limit trips within the group, and the parenthesis is given
back. -/
theorem recognizeTraced_bracketed_openGroup :
    recognize (some 9) "(a" = .error .nestingLimit ∧
      stackAfter [] (recognizeTraced (some 9) "(a").2 = some [] ∧
      (∃ inner last, (recognizeTraced (some 9) "(a").2 = .enter (.node .query) :: (inner ++ [last]) ∧
        (last = .failed (.node .query) ∨ ∃ root, last = .matched root ∧ root.kind = .node .query)) ∧
      (∀ style, (Trace.empty.recordAll style (recognizeTraced (some 9) "(a").2).depth = 0) := by
  obtain ⟨hevents, htraces⟩ := recognizeTraced_bracketed
  obtain ⟨hbracketed, -, hends, -⟩ := hevents (some 9) "(a"
  refine ⟨by decide +kernel, hbracketed [], hends (by decide), fun style => ?_⟩
  have hdepth := (htraces style Trace.empty [(some 9, "(a")]).1
  rwa [List.flatMap_singleton] at hdepth

end BoolQuery
