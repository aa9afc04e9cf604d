/-
# Recognition always answers

The productions never end an attempt as a fault: their right-hand sides ask for tokens and
productions by the right kinds, every tail of a repetition reads something, and they nest only
through groups. So `Query` and every other production answers from every state.
-/

import BoolQuery.Recognizer.Conservation

namespace BoolQuery
namespace RecognizerM

open Recognizer Grammar

/-- A step ends with an answer, and not as a fault. -/
def Answers {α : Type} (act : RecognizerM α) (s : State) : Prop := ∃ a s', act s = .ok a s'

/-- An answer given at once is one. -/
theorem Answers.pure {α : Type} (a : α) (s : State) : Answers (Pure.pure a) s := ⟨a, s, rfl⟩

/-- Computations one after the other answer if the first one does, and the others from there. -/
theorem Answers.bind {α β : Type} {x : RecognizerM α} {f : α → RecognizerM β} {s : State}
    (hx : Answers x s) (hf : ∀ a t, x s = .ok a t → Answers (f a) t) : Answers (x >>= f) s := by
  obtain ⟨a, t, ha⟩ := hx
  obtain ⟨b, u, hb⟩ := hf a t ha
  exact ⟨b, u, (bind_run ha).trans hb⟩

/-- Asking for a token answers. -/
theorem terminal_answers (k : TokenKind) (s : State) : Answers (terminal (.token k)) s := by
  unfold Answers
  rw [terminal_run]
  split
  · exact ⟨_, _, rfl⟩
  · exact ⟨_, _, rfl⟩

/-- Giving tokens back answers. -/
theorem unread_answers (f : Forest) (s : State) : Answers (unread f) s := by
  unfold Answers
  rw [unread_run]
  split
  · exact ⟨_, _, rfl⟩
  · exact ⟨_, _, rfl⟩

/-- How many of some tokens open a group. -/
def openings (ts : List Token) : Nat := ts.countP fun t => t.kind = .token .parenOpen

/-- How many groups may still be opened in a state. -/
def groups (s : State) : Nat := openings s.reader.ahead

/-- The groups still to come are those of the tokens that were matched and of those behind them. -/
theorem groups_eq {f : Option Forest} {s s' : State}
    (h : Token.wide (matchedTokens f) ++ s'.reader.ahead = s.reader.ahead) :
    groups s = openings (Token.wide (matchedTokens f)) + groups s' := by
  simp [groups, openings, ← h]

/-- How many groups a step opens for certain when it matches. -/
def opening : Designator → Nat
  | .terminal (.token .parenOpen) => 1
  | _ => 0

section

variable (rule : Kind → RecognizerM (Option Tree))

mutual

/-- With no more than `b` groups to come, a step is sure to answer: it asks for tokens by the kinds
of tokens, and for productions that answer with as many groups to come. -/
def Admits (b : Nat) : Designator → Prop
  | .terminal kind => ∃ k, kind = .token k
  | .rule kind => ∀ s, groups s ≤ b → Answers (rule kind) s
  | .optional ds => AdmitsAll b ds

/-- The same of steps in order. Behind a parenthesis there is one group less to come. -/
def AdmitsAll (b : Nat) : List Designator → Prop
  | [] => True
  | d :: ds => Admits b d ∧ (opening d ≤ b → AdmitsAll (b - opening d) ds)

end

variable {rule}

/-- A step that matches has opened the groups it opens for certain. -/
theorem opening_le {d : Designator} {s s' : State} {f : Forest}
    (h : step rule d s = .ok (some f) s') :
    opening d ≤ openings (Token.wide (matchedTokens (some f))) := by
  unfold opening
  split
  · simp only [step] at h
    obtain ⟨t, u, ht, h⟩ := bind_ok h
    cases h' : t with
    | none => rw [h'] at h; cases h
    | some t =>
      rw [h'] at h
      cases h
      rw [terminal_run, h'] at ht
      split at ht
      · rename_i hk
        cases ht
        simp [matchedTokens, Token.wide, openings, hk,
          Kind.isZeroWidth]
      · cases ht
  · exact Nat.zero_le _

mutual

/-- A step that is admitted answers: by recursion over the step, with `stepsFrom_answers`. -/
theorem step_answers (hr : ∀ k, Conserves Reader.aheadView producedTokens (rule k)) :
    ∀ d b s, Admits rule b d → groups s ≤ b → Answers (step rule d) s
  | .terminal kind, b, s, h, _ => by
    simp only [Admits] at h
    obtain ⟨k, rfl⟩ := h
    simp only [step]
    exact (terminal_answers k s).bind fun t u _ => .pure _ u
  | .rule kind, b, s, h, hs => by
    simp only [Admits] at h
    simp only [step]
    exact (h s hs).bind fun t u _ => .pure _ u
  | .optional ds, b, s, h, hs => by
    simp only [Admits] at h
    simp only [step]
    exact (stepsFrom_answers hr ds b [] s h hs).bind fun f u _ => .pure _ u

/-- Steps in order that are admitted answer. -/
theorem stepsFrom_answers (hr : ∀ k, Conserves Reader.aheadView producedTokens (rule k)) :
    ∀ ds b done s, AdmitsAll rule b ds → groups s ≤ b → Answers (stepsFrom rule done ds) s
  | [], b, done, s, _, _ => by
    simp only [stepsFrom]
    exact .pure _ s
  | d :: ds, b, done, s, h, hs => by
    simp only [AdmitsAll] at h
    simp only [stepsFrom]
    refine (step_answers hr d b s h.1 hs).bind fun f u hf => ?_
    cases f with
    | some more =>
      have hg := groups_eq (step_conserves hr d s _ u hf).2
      have hle := opening_le hf
      exact stepsFrom_answers hr ds (b - opening d) (done ++ more) u (h.2 (by omega)) (by omega)
    | none => exact (unread_answers done u).bind fun _ w _ => .pure _ w

end

/-- A sequence that is admitted answers. -/
theorem sequence_answers (hr : ∀ k, Conserves Reader.aheadView producedTokens (rule k))
    {ds : List Designator} {b : Nat} {s : State} (h : AdmitsAll rule b ds) (hs : groups s ≤ b) :
    Answers (sequence rule ds) s := stepsFrom_answers hr ds b [] s h hs

/-- A choice of alternatives that are admitted answers. -/
theorem choice_answers (hr : ∀ k, Conserves Reader.aheadView producedTokens (rule k))
    {alternatives : List (List Designator)} {b : Nat} {s : State}
    (h : ∀ ds ∈ alternatives, AdmitsAll rule b ds) (hs : groups s ≤ b) :
    Answers (choice rule alternatives) s := by
  induction alternatives generalizing s with
  | nil => exact .pure _ s
  | cons ds rest ih =>
    simp only [choice]
    refine (sequence_answers hr (h ds (.head _)) hs).bind fun f u hf => ?_
    cases f with
    | some f => exact .pure _ u
    | none =>
      have hg := groups_eq (sequence_conserves hr ds s _ u hf).2
      exact ih (fun ds hds => h ds (.tail _ hds)) (by omega)

/-- Whenever the steps match, they read a token with a width. -/
def Reads (rule : Kind → RecognizerM (Option Tree)) (ds : List Designator) : Prop :=
  ∀ s f s', sequence rule ds s = .ok (some f) s' → Token.wide (Tree.forestTokens f) ≠ []

/-- The same from states with a property only, which the steps keep. -/
def ReadsWithin (P : State → Prop) (rule : Kind → RecognizerM (Option Tree))
    (ds : List Designator) : Prop :=
  ∀ s f s', P s → sequence rule ds s = .ok (some f) s' →
    Token.wide (Tree.forestTokens f) ≠ [] ∧ P s'

/-- Steps that read from every state read from those with any property that all have. -/
theorem Reads.within {ds : List Designator} (h : Reads rule ds) :
    ReadsWithin (fun _ => True) rule ds := by
  intro s f s' _ hf
  exact ⟨h s f s' hf, trivial⟩

/-- A bound above the number of tokens to come that have a width is enough for tails that read. -/
theorem tails_answers (hr : ∀ k, Conserves Reader.aheadView producedTokens (rule k))
    {P : State → Prop} {tail : List Designator} {b bound : Nat} {s : State}
    (h : AdmitsAll rule b tail) (hread : ReadsWithin P rule tail) (hP : P s) (hs : groups s ≤ b)
    (hb : s.reader.ahead.length < bound) : Answers (tails rule tail bound) s := by
  induction bound generalizing s with
  | zero => omega
  | succ bound ih =>
    simp only [tails]
    refine Answers.bind ⟨s, s, rfl⟩ fun _ _ hg => ?_
    cases hg
    split
    · exact .pure _ s
    · refine (sequence_answers hr h hs).bind fun f u hf => ?_
      cases f with
      | none => exact .pure _ u
      | some more =>
        have hc := (sequence_conserves hr tail s _ u hf).2
        have hg := groups_eq hc
        obtain ⟨hmore, hu⟩ := hread s more u hP hf
        have hpos := List.length_pos_iff.2 hmore
        have hlen := congrArg List.length hc
        simp only [Reader.aheadView, matchedTokens, Option.getD_some, List.length_append] at hlen
        exact (ih hu (by omega) (by omega)).bind fun g w _ => .pure _ w

/-- A repetition answers if its head and its tail are admitted and its tails read. -/
theorem repetition_answers (hr : ∀ k, Conserves Reader.aheadView producedTokens (rule k))
    {P : State → Prop} {head tail : List Designator} {b : Nat} {s : State}
    (hh : AdmitsAll rule b head) (ht : AdmitsAll rule b tail)
    (hhead : ∀ f s', sequence rule head s = .ok (some f) s' → P s')
    (hread : ReadsWithin P rule tail) (hs : groups s ≤ b) :
    Answers (repetition rule head tail) s := by
  unfold repetition
  refine (sequence_answers hr hh hs).bind fun f u hf => ?_
  cases f with
  | none => exact .pure _ u
  | some first =>
    have hg := groups_eq (sequence_conserves hr head s _ u hf).2
    refine Answers.bind ⟨u, u, rfl⟩ fun _ _ hget => ?_
    cases hget
    have hlen := Reader.length_ahead_le u.reader
    have hP := hhead first u hf
    exact (tails_answers hr ht hread hP (by omega) (by omega)).bind fun g w _ => .pure _ w

end

/-- Steps in order keep what was found before them in front. -/
theorem stepsFrom_prefix {rule : Kind → RecognizerM (Option Tree)} {done f : Forest}
    {ds : List Designator} {s s' : State} (h : stepsFrom rule done ds s = .ok (some f) s') :
    ∃ more, f = done ++ more := by
  induction ds generalizing done s with
  | nil =>
    simp only [stepsFrom] at h
    cases h
    exact ⟨[], by simp⟩
  | cons d ds ih =>
    simp only [stepsFrom] at h
    obtain ⟨g, u, _, h⟩ := bind_ok h
    cases g with
    | some first =>
      obtain ⟨more, hm⟩ := ih h
      exact ⟨first ++ more, by simp [hm]⟩
    | none =>
      obtain ⟨_, w, _, h⟩ := bind_ok h
      cases h

/-- Steps that begin with a token of a kind with a width read one whenever they match. -/
theorem reads_of_terminal {rule : Kind → RecognizerM (Option Tree)} {k : TokenKind}
    (hk : (Kind.token k).isZeroWidth = false) (ds : List Designator) :
    Reads rule (tok k :: ds) := by
  intro s f s' h
  simp only [sequence, stepsFrom, step] at h
  obtain ⟨g, u, hg, h⟩ := bind_ok h
  obtain ⟨t, w, ht, hg⟩ := bind_ok hg
  rw [terminal_run] at ht
  split at ht
  · rename_i hkind
    cases ht
    cases hg
    obtain ⟨more, rfl⟩ := stepsFrom_prefix h
    simp [Token.wide, hkind, hk]
  · cases ht
    cases hg
    obtain ⟨_, v, _, h⟩ := bind_ok h
    cases h

/-- How many productions a production may come to have open, itself included, before a group is
opened or without one. -/
def rank : NodeKind → Nat
  | .query => 6
  | .orTerm => 5
  | .andTerm => 4
  | .term => 3
  | .phraseOrWords => 2
  | .wordSequence | .exclusion | .inclusion | .prefixTerm => 1

/-- The right-hand side of a production answers if the productions of lower rank do, and `Query`
does with one group less to come. -/
theorem body_answers {rule : Kind → RecognizerM (Option Tree)}
    (hr : ∀ k, Conserves Reader.aheadView producedTokens (rule k)) {b : Nat} {k : NodeKind}
    (hsub : ∀ k', rank k' < rank k → Admits rule b (sub k'))
    (hgroup : k = .term → 1 ≤ b → Admits rule (b - 1) (sub .query)) {s : State}
    (hs : groups s ≤ b) : Answers (body rule (Grammar.body k)) s := by
  have htok : ∀ b k, Admits rule b (tok k) := fun b k => by
    simp only [Admits]
    exact ⟨k, rfl⟩
  have hspace : ∀ b, Admits rule b space? := fun b => by
    simp only [Admits, AdmitsAll]
    exact ⟨⟨_, rfl⟩, fun _ => trivial⟩
  cases k with
  | wordSequence =>
    refine repetition_answers hr ?_ ?_ (fun _ _ _ => trivial) (reads_of_terminal rfl _).within hs
    all_goals simp [AdmitsAll, htok, opening]
  | phraseOrWords =>
    refine choice_answers hr (fun ds hds => ?_) hs
    simp only [List.mem_cons, List.not_mem_nil, or_false] at hds
    rcases hds with rfl | rfl
    · simp [AdmitsAll, htok]
    · simp [AdmitsAll, hsub .wordSequence (by decide)]
  | exclusion =>
    refine choice_answers hr (fun ds hds => ?_) hs
    simp only [List.mem_cons, List.not_mem_nil, or_false] at hds
    rcases hds with rfl | rfl <;> simp [AdmitsAll, htok]
  | inclusion =>
    refine choice_answers hr (fun ds hds => ?_) hs
    simp only [List.mem_cons, List.not_mem_nil, or_false] at hds
    rcases hds with rfl | rfl <;> simp [AdmitsAll, htok]
  | prefixTerm =>
    refine choice_answers hr (fun ds hds => ?_) hs
    simp only [List.mem_cons, List.not_mem_nil, or_false] at hds
    subst hds
    simp [AdmitsAll, htok]
  | term =>
    refine choice_answers hr (fun ds hds => ?_) hs
    simp only [List.mem_cons, List.not_mem_nil, or_false] at hds
    rcases hds with rfl | rfl | rfl | rfl | rfl
    · simp [AdmitsAll, hsub .exclusion (by decide)]
    · simp [AdmitsAll, hsub .inclusion (by decide)]
    · simp [AdmitsAll, hsub .prefixTerm (by decide)]
    · simp [AdmitsAll, hsub .phraseOrWords (by decide)]
    · simp only [AdmitsAll, opening, htok, hspace, true_and, and_true, Nat.sub_zero, implies_true,
        Nat.zero_le, forall_const]
      exact hgroup rfl
  | andTerm =>
    refine repetition_answers hr ?_ ?_ (fun _ _ _ => trivial) (reads_of_terminal rfl _).within hs
    all_goals simp [AdmitsAll, htok, opening, hsub .term (by decide)]
  | orTerm =>
    refine repetition_answers hr ?_ ?_ (fun _ _ _ => trivial) (reads_of_terminal rfl _).within hs
    all_goals simp [AdmitsAll, htok, opening, hsub .andTerm (by decide)]
  | query =>
    refine choice_answers hr (fun ds hds => ?_) hs
    simp only [List.mem_cons, List.not_mem_nil, or_false] at hds
    subst hds
    simp [AdmitsAll, hspace, opening, hsub .orTerm (by decide)]

/-- Every group lets four more productions be open. -/
theorem ruleWithin_answers {bound : Nat} {k : NodeKind} {s : State}
    (h : 4 * groups s + rank k ≤ bound) : Answers (ruleWithin bound (.node k)) s := by
  induction bound generalizing k s with
  | zero => cases k <;> simp [rank] at h
  | succ bound ih =>
    simp only [ruleWithin]
    refine Answers.bind ?_ fun opened u ho => ?_
    · unfold Answers
      rw [openRule_run]
      split
      · exact ⟨_, _, rfl⟩
      · split <;> exact ⟨_, _, rfl⟩
    · -- Opening reads nothing, so as many groups are to come as before.
      have hu : groups u = groups s := by
        rw [openRule_run] at ho
        split at ho
        · cases ho; rfl
        · split at ho <;> · cases ho; rfl
      split
      · refine Answers.bind ⟨(), _, rfl⟩ fun _ w he => ?_
        cases he
        refine Answers.bind ?_ fun f w _ => ?_
        · refine body_answers (b := groups s) (ruleWithin_conserves bound) (fun k' hk => ?_)
            (fun hk hb => ?_) (Nat.le_of_eq hu)
          · simp only [Admits]
            exact fun t ht => ih (by omega)
          · -- `Query` outranks the term around it, but one group less is to come.
            subst hk
            simp only [Admits]
            exact fun t ht => ih (by simp only [rank] at h ⊢; omega)
        · refine Answers.bind ⟨(), _, rfl⟩ fun _ w _ => ?_
          cases f with
          | none => exact ⟨_, _, rfl⟩
          | some children => exact ⟨_, _, rfl⟩
      · exact .pure _ u

/-- Every production answers from every state. -/
theorem rule_answers (k : NodeKind) (s : State) : Answers (rule (.node k)) s := by
  unfold rule
  refine Answers.bind ⟨s, s, rfl⟩ fun _ _ hg => ?_
  cases hg
  refine ruleWithin_answers ?_
  have hsize := Reader.length_ahead_le s.reader
  have hgroups : groups s ≤ s.reader.ahead.length := List.countP_le_length
  have hrank : rank k ≤ 6 := by cases k <;> decide
  simp only [State.nesting]
  omega

end RecognizerM
end BoolQuery
