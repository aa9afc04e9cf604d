/-
# Two runs abreast

Two attempts on lines whose tokens stand for each other take the same steps: where one of them asks
for a kind the other asks for it too, and both find it or neither does. What the two have in common
at any time is said by `State.Alike`, and `Abreast` says of a pair of computations that they keep
it. The furthest mismatch is found by comparing bytes, and a likeness makes both comparisons come
out alike. The bounds on nesting and repeating are those of each line and may differ: they are never
reached.
-/

import BoolQuery.Proofs.Kinds.Likeness
import BoolQuery.Proofs.Nesting.Events
import BoolQuery.Proofs.Ways

namespace BoolQuery

open Recognizer Grammar

variable {like : Token → Token → Prop}

/-- States of two attempts in which the tokens to come stand for each other, and the furthest
mismatches do; all else is the same up to texts and places. -/
structure Recognizer.State.Alike (like : Token → Token → Prop) (s t : State) : Prop where
  stream : ∀ n, like (s.reader.stream n) (t.reader.stream n)
  depth : s.depth = t.depth
  limit : s.limit = t.limit
  spent : s.spent = t.spent
  furthest : Option.Rel like s.furthest t.furthest
  events : s.events.toList.map Event.bare = t.events.toList.map Event.bare

/-- Tokens that may be missing stand for each other, with others that do in their place. -/
theorem Recognizer.getD_alike {a b : Option Token} {t u : Token} (hab : Option.Rel like a b)
    (htu : like t u) : like (a.getD t) (b.getD u) := by
  cases hab with
  | none => exact htu
  | some hab => exact hab

/-- Of the furthest mismatch so far and a new one, both attempts keep the older or both the
newer. -/
theorem Recognizer.further_alike (hl : Token.Likeness like) {a b : Option Token} {t u : Token}
    (hab : Option.Rel like a b) (htu : like t u) :
    Option.Rel like (further a t) (further b u) := by
  cases hab with
  | none => exact .some htu
  | @some c d hcd =>
    have hiff := hl.start_lt_iff hcd htu
    by_cases hlt : c.span.start < t.span.start
    · rw [further, further, if_pos (by simpa using hlt), if_pos (by simpa using hiff.1 hlt)]
      exact .some htu
    · rw [further, further, if_neg (by simpa using hlt),
        if_neg (by simpa using fun h => hlt (hiff.2 h))]
      exact .some hcd

namespace RecognizerM

variable {α β γ δ : Type}

/-- From alike states the two computations, if both answer, answer as the relation says and leave
alike states. -/
def Abreast (like : Token → Token → Prop) (rel : α → β → Prop) (x : RecognizerM α)
    (y : RecognizerM β) : Prop :=
  ∀ s t a s' b t', State.Alike like s t → x s = .ok a s' → y t = .ok b t' →
    rel a b ∧ State.Alike like s' t'

/-- Answers with alike forests, or none in either. -/
abbrev BothAlike (like : Token → Token → Prop) : Option Forest → Option Forest → Prop :=
  Option.Rel (Forest.Alike like)

namespace Abreast

variable {rel : α → β → Prop} {rel' : γ → δ → Prop}

/-- Answers given at once are abreast if they are related. -/
theorem pure {a : α} {b : β} (h : rel a b) :
    Abreast like rel (Pure.pure a : RecognizerM α) (Pure.pure b) := by
  intro s t c s' d t' hst hx hy
  cases hx
  cases hy
  exact ⟨h, hst⟩

/-- Computations one after the other go abreast if the later ones do from related answers. -/
theorem bind {x : RecognizerM α} {y : RecognizerM β} {f : α → RecognizerM γ}
    {g : β → RecognizerM δ} (hxy : Abreast like rel x y)
    (hfg : ∀ a b, rel a b → Abreast like rel' (f a) (g b)) :
    Abreast like rel' (x >>= f) (y >>= g) := by
  intro s t c s' d t' hst hx hy
  obtain ⟨a, u, hx, hf⟩ := bind_ok hx
  obtain ⟨b, v, hy, hg⟩ := bind_ok hy
  obtain ⟨hab, huv⟩ := hxy s t a u b v hst hx hy
  exact hfg a b hab u v c s' d t' huv hf hg

/-- Computations may be known to have more in common. -/
theorem mono {rel'' : α → β → Prop} {x : RecognizerM α} {y : RecognizerM β}
    (hxy : Abreast like rel x y) (h : ∀ a b, rel a b → rel'' a b) : Abreast like rel'' x y := by
  intro s t a s' b t' hst hx hy
  obtain ⟨hab, hst'⟩ := hxy s t a s' b t' hst hx hy
  exact ⟨h a b hab, hst'⟩

/-- Computations that look at their states first. -/
theorem get {f : State → RecognizerM α} {g : State → RecognizerM β}
    (hfg : ∀ s t, State.Alike like s t → Abreast like rel (f s) (g t)) :
    Abreast like rel (MonadState.get >>= f) (MonadState.get >>= g) := by
  intro s t a s' b t' hst hx hy
  rw [bind_run (get_run s)] at hx
  rw [bind_run (get_run t)] at hy
  exact hfg s t hst s t a s' b t' hst hx hy

/-- Computations of which it is known what they do. -/
theorem of_run {x : RecognizerM α} {y : RecognizerM β}
    (hxy : ∀ s t, State.Alike like s t → ∃ a s' b t', x s = .ok a s' ∧ y t = .ok b t' ∧
      rel a b ∧ State.Alike like s' t') : Abreast like rel x y := by
  intro s t a s' b t' hst hx hy
  obtain ⟨c, u, d, v, hc, hd, hcd, huv⟩ := hxy s t hst
  rw [hx] at hc
  rw [hy] at hd
  cases hc
  cases hd
  exact ⟨hcd, huv⟩

/-- Where one of the two does not answer there is nothing to compare. -/
theorem of_throw_left (fault : Fault) (y : RecognizerM β) :
    Abreast like rel (throw fault : RecognizerM α) y := by
  intro s t a s' b t' _ hx _
  cases hx

/-- Where the second of the two does not answer there is nothing to compare either. -/
theorem of_throw_right (fault : Fault) (x : RecognizerM α) :
    Abreast like rel x (throw fault : RecognizerM β) := by
  intro s t a s' b t' _ _ hy
  cases hy

end Abreast

/-! ### Single steps -/

section

variable (hl : Token.Likeness like)
include hl

/-- Both attempts find a token of the kind, or neither does. -/
theorem terminal_abreast (kind : Kind) :
    Abreast like (Option.Rel like) (terminal kind) (terminal kind) := by
  cases kind with
  | node k => exact .of_throw_left _ _
  | endMark => exact .of_throw_left _ _
  | token k =>
    refine .of_run fun s t hst => ?_
    have hnext : like s.reader.next.1 t.reader.next.1 := hst.stream 0
    rw [terminal_run, terminal_run, ← hl.kind_eq hnext]
    split
    · exact ⟨_, _, _, _, rfl, rfl, .some hnext, { hst with stream := fun n => hst.stream (n + 1) }⟩
    · refine ⟨_, _, _, _, rfl, rfl, .none,
        { hst with stream := ?_, furthest := further_alike hl hst.furthest hnext }⟩
      -- The token goes back to where it was read.
      have hgiven : ∀ r : Reader, (r.next.2.pushAll [r.next.1]).stream = r.stream :=
        Reader.streamView.see_giveBack
      rw [hgiven, hgiven]
      exact hst.stream

/-- Both attempts give alike tokens back. -/
theorem unread_abreast {f g : Forest} (h : Forest.Alike like f g) :
    Abreast like (fun _ _ => True) (unread f) (unread g) := by
  refine .of_run fun s t hst => ?_
  rw [unread_run, unread_run]
  by_cases hf : f = []
  · rw [if_pos hf, if_pos (h.eq_nil_iff.1 hf)]
    exact ⟨_, _, _, _, rfl, rfl, trivial, hst⟩
  · rw [if_neg hf, if_neg fun hg => hf (h.eq_nil_iff.2 hg)]
    refine ⟨_, _, _, _, rfl, rfl, trivial, { hst with stream := ?_, events := ?_ }⟩
    · rw [Reader.stream_pushAll, Reader.stream_pushAll]
      exact Reader.inFront_alike h.tokens hst.stream
    · rw [Array.toList_push, Array.toList_push, List.map_append, List.map_append, hst.events]
      simp [Event.bare, hl.map_bare_eq h.tokens]

/-! ### Ways of matching -/

variable {rule rule' : Kind → RecognizerM (Option Tree)}

/-- Productions of which each goes abreast with that of the same kind. -/
def RulesAbreast (like : Token → Token → Prop) (rule rule' : Kind → RecognizerM (Option Tree)) :
    Prop :=
  ∀ k, Abreast like (Option.Rel fun t u => Forest.Alike like [t] [u]) (rule k) (rule' k)

/-- Two attempts match by means that go abreast, whatever the bounds on how often a tail may match:
they are those of each line. -/
theorem means_compatible (hr : RulesAbreast like rule rule') :
    Compatible (means rule) (means rule') (Forest.Alike like) (fun _ _ => True)
      (Abreast like (Answer.rel (Forest.Alike like))) where
  nil := .nil
  append := .append
  pure := .pure
  bind := .bind
  terminal kind := by
    refine (terminal_abreast hl kind).mono fun t u htu => ?_
    cases htu with
    | none => exact .none
    | some htu => exact .some (.leaf hl htu)
  rule := hr
  unread := unread_abreast hl
  optional hxy := by
    refine hxy.bind fun f g hfg => .pure ?_
    cases hfg with
    | none => exact .some .nil
    | some hfg => exact .some hfg
  spent hxy := by
    refine .get fun s t hst => ?_
    rw [hst.spent]
    split
    · exact .pure .nil
    · exact hxy
  room hxy := .get fun _ _ _ => hxy _ _ trivial
  lower := id
  exhausted tail _ h := by
    rcases h with rfl | rfl
    · exact .of_throw_left _ _
    · exact .of_throw_right _ _

/-- The bodies of productions go abreast if the productions they ask for do. -/
theorem body_abreast (hr : RulesAbreast like rule rule') (b : Body) :
    Abreast like (BothAlike like) (body rule b) (body rule' b) := by
  rw [body_eq, body_eq]
  exact (means_compatible hl hr).body b

/-! ### Productions -/

omit hl in
/-- Both attempts open a production, or neither does. -/
theorem openRule_abreast : Abreast like Eq openRule openRule := by
  refine .of_run fun s t hst => ?_
  have hfull : t.limit.any (· ≤ t.depth) = s.limit.any (· ≤ s.depth) := by
    rw [hst.limit, hst.depth]
  rw [openRule_run, openRule_run, hfull]
  by_cases hs : s.spent = true
  · have ht : t.spent = true := hst.spent ▸ hs
    rw [if_pos hs, if_pos ht]
    exact ⟨_, _, _, _, rfl, rfl, rfl, hst⟩
  have ht : ¬ t.spent = true := hst.spent ▸ hs
  rw [if_neg hs, if_neg ht]
  split
  · exact ⟨_, _, _, _, rfl, rfl, rfl, { hst with spent := rfl }⟩
  · exact ⟨_, _, _, _, rfl, rfl, rfl, { hst with depth := congrArg (· + 1) hst.depth }⟩

omit hl in
/-- Alike states are alike after opening a production. -/
theorem opened_alike {s t : State} (hst : State.Alike like s t) (kind : Kind) :
    State.Alike like (opened kind s) (opened kind t) :=
  { hst with
    depth := congrArg (· + 1) hst.depth
    events := by
      simp only [opened, Array.toList_push, List.map_append, hst.events] }

omit hl in
/-- Alike states are alike after closing a production with alike answers. -/
theorem closed_alike {s t : State} {f g : Option Forest} (hst : State.Alike like s t)
    (hfg : BothAlike like f g) (k : NodeKind) :
    State.Alike like (closed k f s) (closed k g t) :=
  { hst with
    depth := congrArg (· - 1) hst.depth
    events := by
      have hclosing : (Event.closing k f).bare = (Event.closing k g).bare := by
        cases hfg with
        | none => rfl
        | some hfg => exact congrArg Event.matched (List.singleton_inj.1 (hfg.node k).bare)
      rw [toList_closed, toList_closed, List.map_append, List.map_append, hst.events,
        List.map_singleton, List.map_singleton, hclosing] }

/-- **Productions go abreast**, also under different bounds on their nesting. -/
theorem ruleWithin_abreast (m n : Nat) : RulesAbreast like (ruleWithin m) (ruleWithin n) := by
  induction m generalizing n with
  | zero => exact fun _ => .of_throw_left _ _
  | succ m ih =>
    cases n with
    | zero => exact fun _ => .of_throw_right _ _
    | succ n =>
      intro kind s t a s' b t' hst hx hy
      rcases ruleWithin_succ_ok hx with ⟨ho, rfl⟩ | ⟨k, f, u, rfl, ho, hf, rfl, rfl⟩
      · rcases ruleWithin_succ_ok hy with ⟨ho', rfl⟩ | ⟨k, g, v, rfl, ho', hg, rfl, rfl⟩
        · exact ⟨.none, (openRule_abreast _ _ _ _ _ _ hst ho ho').2⟩
        · cases (openRule_abreast _ _ _ _ _ _ hst ho ho').1
      · rcases ruleWithin_succ_ok hy with ⟨ho', rfl⟩ | ⟨k', g, v, hk, ho', hg, rfl, rfl⟩
        · cases (openRule_abreast _ _ _ _ _ _ hst ho ho').1
        · cases hk
          obtain ⟨hfg, huv⟩ := body_abreast hl (ih n) (Grammar.body k) _ _ _ _ _ _
            (opened_alike hst (.node k)) hf hg
          refine ⟨?_, closed_alike huv hfg k⟩
          cases hfg with
          | none => exact .none
          | some hfg => exact .some (hfg.node k)

/-- The productions of two attempts go abreast. -/
theorem rule_abreast : RulesAbreast like RecognizerM.rule RecognizerM.rule := by
  intro kind
  unfold RecognizerM.rule
  exact .get fun s t _ => ruleWithin_abreast hl _ _ kind

end

end RecognizerM
end BoolQuery
