/-
# Matching conserves the tokens to come

Whatever way of matching is run from whatever state: the tokens of the trees that it answers with,
followed by the tokens to come after it, are the tokens to come before it; after a failure the
tokens to come are those before it. As many productions are open after it as before.
-/

import BoolQuery.Reader.Ahead
import BoolQuery.Recognizer.Runs

namespace BoolQuery
namespace RecognizerM

open Recognizer Grammar

/-- Whatever a step answers with, the tokens that the answer stands for are taken from those to
come, and as many productions are open as before. -/
def Conserves {α β : Type} (v : Reader.View β) (taken : α → List Token) (act : RecognizerM α) :
    Prop :=
  ∀ s a s', act s = .ok a s' →
    s'.depth = s.depth ∧ v.prepend (taken a) (v.see s'.reader) = v.see s.reader

/-- The tokens of what a way of matching answers with. -/
def matchedTokens (f : Option Forest) : List Token := Tree.forestTokens (f.getD [])

/-- The tokens of what a production answers with. -/
def producedTokens (t : Option Tree) : List Token := Tree.forestTokens t.toList

variable {β : Type} {v : Reader.View β}

/-- A token that is asked for is read or given back at once. -/
theorem terminal_conserves (kind : Kind) : Conserves v Option.toList (terminal kind) := by
  intro s a s' h
  cases kind with
  | token k =>
    rw [terminal_run] at h
    split at h
    · cases h
      exact ⟨rfl, v.prepend_next _⟩
    · cases h
      exact ⟨rfl, by simpa [v.prepend_nil] using v.see_giveBack _⟩
  | node k => cases h
  | endMark => cases h

/-- What is given back is to come again, in front of the rest. -/
theorem unread_ok {f : Forest} {s s' : State} {u : Unit} (h : unread f s = .ok u s') :
    s'.depth = s.depth ∧ v.see s'.reader = v.prepend (Tree.forestTokens f) (v.see s.reader) := by
  rw [unread_run] at h
  split at h
  · rename_i hf
    cases h
    simp [hf, v.prepend_nil]
  · cases h
    exact ⟨rfl, v.see_pushAll ..⟩

section

variable {rule : Kind → RecognizerM (Option Tree)}

mutual

/-- A single step takes the tokens of its trees, as the production it asks for does. -/
theorem step_conserves (hr : ∀ k, Conserves v producedTokens (rule k)) :
    ∀ d, Conserves v matchedTokens (step rule d)
  | .terminal kind => by
    intro s a s' h
    obtain ⟨t, ht, rfl⟩ := step_terminal_ok h
    have hc := terminal_conserves (v := v) kind s t _ ht
    cases t <;> simpa [matchedTokens] using hc
  | .rule kind => by
    intro s a s' h
    obtain ⟨t, ht, rfl⟩ := step_rule_ok h
    have hc := hr kind s t _ ht
    cases t <;> simpa [matchedTokens, producedTokens] using hc
  | .optional ds => by
    intro s a s' h
    obtain ⟨f, hf, rfl⟩ := step_optional_ok h
    have hc := stepsFrom_conserves hr ds [] s f _ hf
    simpa [matchedTokens, v.prepend_nil] using hc

/-- Steps in order answer for the trees in front of them as well: on a miss those are given back. -/
theorem stepsFrom_conserves (hr : ∀ k, Conserves v producedTokens (rule k)) :
    ∀ ds done s a s', stepsFrom rule done ds s = .ok a s' →
      s'.depth = s.depth ∧ v.prepend (matchedTokens a) (v.see s'.reader) =
        v.prepend (Tree.forestTokens done) (v.see s.reader)
  | [], done, s, a, s', h => by
    obtain ⟨rfl, rfl⟩ := stepsFrom_nil_ok h
    exact ⟨rfl, rfl⟩
  | d :: ds, done, s, a, s', h => by
    rcases stepsFrom_cons_ok h with ⟨more, u, hf, h⟩ | ⟨u, hf, hu, rfl⟩
    · obtain ⟨hd, ha⟩ := step_conserves hr d s _ u hf
      obtain ⟨hd', ha'⟩ := stepsFrom_conserves hr ds (done ++ more) u a s' h
      refine ⟨hd'.trans hd, ?_⟩
      rw [ha', Tree.forestTokens_append, v.prepend_append]
      exact congrArg _ ha
    · obtain ⟨hd, ha⟩ := step_conserves hr d s _ u hf
      obtain ⟨hd', ha'⟩ := unread_ok (v := v) hu
      refine ⟨hd'.trans hd, ?_⟩
      rw [ha', ← ha]
      simp [matchedTokens, v.prepend_nil]

end

/-- Without trees in front nothing but the tokens of the steps is taken. -/
theorem sequence_conserves (hr : ∀ k, Conserves v producedTokens (rule k))
    (ds : List Designator) : Conserves v matchedTokens (sequence rule ds) := by
  intro s a s' h
  have hc := stepsFrom_conserves hr ds [] s a s' h
  simpa [v.prepend_nil] using hc

/-- An alternative that misses has taken nothing when the next one begins. -/
theorem choice_conserves (hr : ∀ k, Conserves v producedTokens (rule k))
    (alternatives : List (List Designator)) :
    Conserves v matchedTokens (choice rule alternatives) := by
  induction alternatives with
  | nil =>
    intro s a s' h
    obtain ⟨rfl, rfl⟩ := choice_nil_ok h
    exact ⟨rfl, v.prepend_nil _⟩
  | cons ds rest ih =>
    intro s a s' h
    rcases choice_cons_ok h with ⟨f, hf, rfl⟩ | ⟨u, hf, h⟩
    · exact sequence_conserves hr ds s _ s' hf
    · obtain ⟨hd, ha⟩ := sequence_conserves hr ds s _ u hf
      obtain ⟨hd', ha'⟩ := ih u a s' h
      refine ⟨hd'.trans hd, ha'.trans ?_⟩
      simpa [matchedTokens, v.prepend_nil] using ha

/-- What is missing takes nothing. -/
theorem optional_conserves (hr : ∀ k, Conserves v producedTokens (rule k))
    (ds : List Designator) : Conserves v Tree.forestTokens (optional rule ds) := by
  intro s f s' h
  obtain ⟨a, ha, rfl⟩ := optional_ok h
  exact choice_conserves hr _ s a s' ha

/-- Each tail takes its tokens from those that the one before it has left. -/
theorem tails_conserves (hr : ∀ k, Conserves v producedTokens (rule k))
    (tail : List Designator) (bound : Nat) :
    Conserves v Tree.forestTokens (tails rule tail bound) := by
  induction bound with
  | zero =>
    intro s f s' h
    cases h
  | succ bound ih =>
    intro s f s' h
    rcases tails_succ_ok h with ⟨_, rfl, rfl⟩ | ⟨_, hf, rfl⟩ | ⟨more, u, g, _, hf, hg, rfl⟩
    · exact ⟨rfl, v.prepend_nil _⟩
    · exact sequence_conserves hr tail s _ s' hf
    · obtain ⟨hd, ha⟩ := sequence_conserves hr tail s _ u hf
      obtain ⟨hd', ha'⟩ := ih u g s' hg
      refine ⟨hd'.trans hd, ?_⟩
      rw [Tree.forestTokens_append, v.prepend_append, ha']
      exact ha

/-- The head takes its tokens first and the tails those behind it. -/
theorem repetition_conserves (hr : ∀ k, Conserves v producedTokens (rule k))
    (head tail : List Designator) : Conserves v matchedTokens (repetition rule head tail) := by
  intro s a s' h
  rcases repetition_ok h with ⟨hf, rfl⟩ | ⟨first, u, g, hf, hg, rfl⟩
  · exact sequence_conserves hr head s _ s' hf
  · obtain ⟨hd, ha⟩ := sequence_conserves hr head s _ u hf
    obtain ⟨hd', ha'⟩ := tails_conserves hr tail _ u g s' hg
    refine ⟨hd'.trans hd, ?_⟩
    simp only [matchedTokens, Option.getD_some, Tree.forestTokens_append, v.prepend_append, ha']
    exact ha

/-- **Right-hand sides conserve the tokens to come** if the productions in them do. -/
theorem body_conserves (hr : ∀ k, Conserves v producedTokens (rule k)) (b : Body) :
    Conserves v matchedTokens (body rule b) := by
  cases b with
  | choice alternatives => exact choice_conserves hr alternatives
  | repetition head tail => exact repetition_conserves hr head tail

end

/-- Opening a production reads nothing, and one that is not opened leaves the depth as it is. -/
theorem openRule_ok {s s' : State} {b : Bool} (h : openRule s = .ok b s') :
    s'.reader = s.reader ∧ (b = false → s'.depth = s.depth) := by
  rw [openRule_run] at h
  split at h
  · cases h
    exact ⟨rfl, fun _ => rfl⟩
  · split at h <;> cases h
    · exact ⟨rfl, fun _ => rfl⟩
    · exact ⟨rfl, nofun⟩

/-- **Productions conserve the tokens to come**, however many may be nested. -/
theorem ruleWithin_conserves (bound : Nat) (kind : Kind) :
    Conserves v producedTokens (ruleWithin bound kind) := by
  induction bound generalizing kind with
  | zero =>
    intro s a s' h
    cases h
  | succ bound ih =>
    intro s a s' h
    rcases ruleWithin_succ_ok h with ⟨ho, rfl⟩ | ⟨k, f, u, rfl, _, hf, rfl, rfl⟩
    · obtain ⟨hr, hd⟩ := openRule_ok ho
      refine ⟨hd rfl, ?_⟩
      rw [hr]
      exact v.prepend_nil _
    · obtain ⟨hd, ha⟩ := body_conserves (fun k => ih k) (Grammar.body k) _ f u hf
      refine ⟨?_, ?_⟩
      · simp only [closed, opened] at hd ⊢
        omega
      · cases f <;> simpa [producedTokens, matchedTokens, closed, opened] using ha

/-- The bound on their nesting makes no difference to that. -/
theorem rule_conserves (kind : Kind) : Conserves v producedTokens (rule kind) := by
  intro s a s' h
  obtain ⟨_, _, hg, h⟩ := bind_ok h
  cases hg
  exact ruleWithin_conserves _ kind s a s' h

end RecognizerM
end BoolQuery
