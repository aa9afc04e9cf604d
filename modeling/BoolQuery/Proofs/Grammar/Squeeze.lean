/-
# Whitespace squeezed together

The grammar also derives token kinds in which whitespace stands beside whitespace: behind the
parenthesis of a group one can be the group's and one the query's. The tokens of a line are never
like that. But what is derived stays derived when the second one is taken away (`IsQuery.squeeze`),
because that takes only whitespace that may be missing out of a right-hand side, and leaves what is
then still a right-hand side of the same production.
-/

import BoolQuery.Grammar.Derivation
import Mathlib.Data.List.Chain

namespace BoolQuery
namespace Grammar

/-- The token kinds without the whitespace that stands behind whitespace. The flag tells whether
whitespace stands in front of them. -/
def squeeze : Bool → List TokenKind → List TokenKind
  | _, [] => []
  | spaced, a :: w =>
    if a = .whitespace then
      if spaced then squeeze true w else a :: squeeze true w
    else a :: squeeze false w

/-- Whether whitespace stands behind the token kinds, given whether it stands in front of them. -/
def endsSpaced : Bool → List TokenKind → Bool
  | spaced, [] => spaced
  | _, a :: w => endsSpaced (a = .whitespace) w

theorem squeeze_append (b : Bool) (u w : List TokenKind) :
    squeeze b (u ++ w) = squeeze b u ++ squeeze (endsSpaced b u) w := by
  induction u generalizing b with
  | nil => rfl
  | cons a u ih =>
    rw [List.cons_append, squeeze, squeeze, endsSpaced, ih, ih]
    by_cases ha : a = .whitespace
    · rw [if_pos ha, if_pos ha, decide_eq_true ha]
      cases b <;> rfl
    · rw [if_neg ha, if_neg ha, decide_eq_false ha, List.cons_append]

theorem endsSpaced_append (b : Bool) (u w : List TokenKind) :
    endsSpaced b (u ++ w) = endsSpaced (endsSpaced b u) w := by
  induction u generalizing b with
  | nil => rfl
  | cons a u ih =>
    rw [List.cons_append, endsSpaced, endsSpaced, ih]

/-- No whitespace stands beside whitespace. -/
def Apart (w : List TokenKind) : Prop :=
  w.IsChain fun a c => ¬ (a = .whitespace ∧ c = .whitespace)

/-- Squeezed whitespace stands alone. -/
theorem apart_squeeze (b : Bool) (w : List TokenKind) :
    Apart (squeeze b w) ∧ (b = true → (squeeze b w).head? ≠ some .whitespace) := by
  induction w generalizing b with
  | nil => exact ⟨.nil, fun _ => nofun⟩
  | cons a w ih =>
    rw [squeeze]
    by_cases ha : a = .whitespace
    · rw [if_pos ha]
      obtain ⟨hapart, hhead⟩ := ih true
      cases b with
      | true => exact ⟨hapart, hhead⟩
      | false =>
        refine ⟨List.isChain_cons.2 ⟨?_, hapart⟩, nofun⟩
        rintro c hc ⟨-, rfl⟩
        exact hhead rfl hc
    · rw [if_neg ha]
      refine ⟨List.isChain_cons.2 ⟨fun c _ h => ha h.1, (ih false).1⟩, fun _ h => ?_⟩
      exact ha (Option.some.inj h)

/-- Where whitespace stands alone there is nothing to squeeze. -/
theorem squeeze_of_apart {b : Bool} {w : List TokenKind} (h : Apart w)
    (hb : b = true → w.head? ≠ some .whitespace) : squeeze b w = w := by
  induction w generalizing b with
  | nil => rfl
  | cons a w ih =>
    obtain ⟨hnext, hw⟩ := List.isChain_cons.1 h
    rw [squeeze]
    by_cases ha : a = .whitespace
    · subst ha
      rw [if_pos rfl, ih hw fun _ hhead => hnext _ hhead ⟨rfl, rfl⟩]
      cases b with
      | true => exact absurd rfl (hb rfl)
      | false => rfl
    · rw [if_neg ha, ih hw fun hfalse => absurd hfalse Bool.false_ne_true]

/-! ### Right-hand sides out of which whitespace is taken -/

/-- `Thinned b ks ls e`: out of the kinds `ks` the whitespace is taken that stands behind
whitespace, and `ls` is left. Whitespace stands in front of them if `b`, and behind them if `e`.
Only behind a query it cannot be told without a look into it. -/
inductive Thinned : Bool → List Kind → List Kind → Bool → Prop
  | nil {b : Bool} : Thinned b [] [] b
  | space {ks ls : List Kind} {e : Bool} (h : Thinned true ks ls e) :
      Thinned false (.token .whitespace :: ks) (.token .whitespace :: ls) e
  | dropped {ks ls : List Kind} {e : Bool} (h : Thinned true ks ls e) :
      Thinned true (.token .whitespace :: ks) ls e
  | token {a : TokenKind} {ks ls : List Kind} {b e : Bool} (ha : a ≠ .whitespace)
      (h : Thinned false ks ls e) : Thinned b (.token a :: ks) (.token a :: ls) e
  | node {k : NodeKind} {ks ls : List Kind} {b c e : Bool} (hc : k ≠ .query → c = false)
      (h : Thinned c ks ls e) : Thinned b (.node k :: ks) (.node k :: ls) e

namespace Thinned

variable {ks ls : List Kind} {b e : Bool}

/-- A token kind that is no whitespace is left. -/
theorem of_token {a : TokenKind} (ha : a ≠ .whitespace) (h : Thinned b (.token a :: ks) ls e) :
    ∃ ms, ls = .token a :: ms ∧ Thinned false ks ms e := by
  cases h with
  | space _ | dropped _ => exact absurd rfl ha
  | token _ h => exact ⟨_, rfl, h⟩

/-- Whitespace with none in front is left. -/
theorem of_space (h : Thinned false (.token .whitespace :: ks) ls e) :
    ∃ ms, ls = .token .whitespace :: ms ∧ Thinned true ks ms e := by
  cases h with
  | space h => exact ⟨_, rfl, h⟩
  | token ha _ => exact absurd rfl ha

/-- A node is left, and behind one that is no query stands no whitespace. -/
theorem of_node {k : NodeKind} (h : Thinned b (.node k :: ks) ls e) :
    ∃ ms c, ls = .node k :: ms ∧ (k ≠ .query → c = false) ∧ Thinned c ks ms e := by
  cases h with
  | node hc h => exact ⟨_, _, rfl, hc, h⟩

/-- Whitespace that may be missing still may be. -/
theorem of_maybeSpace {u : List Kind} (hu : MaybeSpace u) (h : Thinned b (u ++ ks) ls e) :
    ∃ v ms c, ls = v ++ ms ∧ MaybeSpace v ∧ Thinned c ks ms e := by
  rcases hu with rfl | rfl
  · exact ⟨[], ls, b, rfl, .inl rfl, h⟩
  · cases h with
    | space h => exact ⟨[_], _, true, rfl, .inr rfl, h⟩
    | dropped h => exact ⟨[], ls, true, rfl, .inl rfl, h⟩
    | token ha _ => exact absurd rfl ha

/-- A chain whose items and what stands between them are left is left. -/
theorem of_chain {item : Kind} {between : List Kind} {n : Nat}
    (hitem : ∀ b ks ls e, Thinned b (item :: ks) ls e →
      ∃ ms, ls = item :: ms ∧ Thinned false ks ms e)
    (hbetween : ∀ ks ls e, Thinned false (between ++ ks) ls e →
      ∃ ms c, ls = between ++ ms ∧ Thinned c ks ms e)
    (h : Thinned b (chain item between n) ls e) : ls = chain item between n ∧ e = false := by
  have htails : ∀ n ls, Thinned false (List.replicate n (between ++ [item])).flatten ls e →
      ls = (List.replicate n (between ++ [item])).flatten ∧ e = false := by
    intro n
    induction n with
    | zero =>
      rintro ls ⟨⟩
      exact ⟨rfl, rfl⟩
    | succ n ih =>
      intro ls hls
      rw [List.replicate_succ, List.flatten_cons, List.append_assoc] at hls ⊢
      obtain ⟨ms, c, rfl, hms⟩ := hbetween _ _ _ hls
      obtain ⟨ks, rfl, hks⟩ := hitem _ _ _ _ hms
      obtain ⟨rfl, rfl⟩ := ih ks hks
      exact ⟨by rw [List.singleton_append], rfl⟩
  obtain ⟨ms, rfl, hms⟩ := hitem _ _ _ _ h
  obtain ⟨hms, he⟩ := htails n ms hms
  exact ⟨by rw [hms, chain], he⟩

/-- What stands between two items that are joined by a keyword is left. -/
theorem of_joint {keyword : TokenKind} (hk : keyword ≠ .whitespace)
    (h : Thinned false ([.token .whitespace, .token keyword, .token .whitespace] ++ ks) ls e) :
    ∃ ms c, ls = [.token .whitespace, .token keyword, .token .whitespace] ++ ms ∧
      Thinned c ks ms e := by
  obtain ⟨_, rfl, h₁⟩ := of_space h
  obtain ⟨_, rfl, h₂⟩ := of_token hk h₁
  obtain ⟨ms, rfl, h₃⟩ := of_space h₂
  exact ⟨ms, true, rfl, h₃⟩

/-- An item that is a node but no query is left, and no whitespace stands behind it. -/
theorem of_item {k : NodeKind} (hk : k ≠ .query) (h : Thinned b (.node k :: ks) ls e) :
    ∃ ms, ls = .node k :: ms ∧ Thinned false ks ms e := by
  obtain ⟨ms, c, rfl, hc, h⟩ := of_node h
  obtain rfl := hc hk
  exact ⟨ms, rfl, h⟩

theorem of_nil (h : Thinned b [] ls e) : ls = [] ∧ e = b := by
  cases h
  exact ⟨rfl, rfl⟩

end Thinned

/-- **A thinned right-hand side is one of the same production**, and only a query may end in
whitespace. -/
theorem RightHandSide.thinned {k : NodeKind} {rhs ls : List Kind} {b e : Bool}
    (h : RightHandSide k rhs) (ht : Thinned b rhs ls e) :
    RightHandSide k ls ∧ (k ≠ .query → e = false) := by
  -- Only whitespace is thinned, so most right-hand sides are left as they are.
  have hpair : ∀ {a c : TokenKind}, a ≠ .whitespace → c ≠ .whitespace →
      Thinned b [.token a, .token c] ls e → ls = [.token a, .token c] ∧ e = false := by
    intro a c ha hc ht
    obtain ⟨_, rfl, h₁⟩ := ht.of_token ha
    obtain ⟨_, rfl, h₂⟩ := h₁.of_token hc
    obtain ⟨rfl, rfl⟩ := h₂.of_nil
    exact ⟨rfl, rfl⟩
  have hone : ∀ {l : NodeKind}, l ≠ .query → Thinned b [.node l] ls e →
      ls = [.node l] ∧ e = false := by
    intro l hl ht
    obtain ⟨_, rfl, h₁⟩ := ht.of_item hl
    obtain ⟨rfl, rfl⟩ := h₁.of_nil
    exact ⟨rfl, rfl⟩
  cases h with
  | wordSequence n =>
    have hspace : ∀ ks ls e, Thinned false ([.token .whitespace] ++ ks) ls e →
        ∃ ms c, ls = [.token .whitespace] ++ ms ∧ Thinned c ks ms e := by
      intro ks ls e hks
      obtain ⟨ms, rfl, hms⟩ := hks.of_space
      exact ⟨ms, true, rfl, hms⟩
    obtain ⟨rfl, rfl⟩ := ht.of_chain (fun _ _ _ _ => Thinned.of_token (by decide)) hspace
    exact ⟨.wordSequence n, fun _ => rfl⟩
  | andTerm n =>
    obtain ⟨rfl, rfl⟩ := ht.of_chain (fun _ _ _ _ => Thinned.of_item (by decide))
      fun _ _ _ => Thinned.of_joint (by decide)
    exact ⟨.andTerm n, fun _ => rfl⟩
  | orTerm n =>
    obtain ⟨rfl, rfl⟩ := ht.of_chain (fun _ _ _ _ => Thinned.of_item (by decide))
      fun _ _ _ => Thinned.of_joint (by decide)
    exact ⟨.orTerm n, fun _ => rfl⟩
  | phrase =>
    obtain ⟨_, rfl, h₁⟩ := ht.of_token (by decide)
    obtain ⟨rfl, rfl⟩ := h₁.of_nil
    exact ⟨.phrase, fun _ => rfl⟩
  | words =>
    obtain ⟨rfl, rfl⟩ := hone (by decide) ht
    exact ⟨.words, fun _ => rfl⟩
  | excludeWord =>
    obtain ⟨rfl, rfl⟩ := hpair (by decide) (by decide) ht
    exact ⟨.excludeWord, fun _ => rfl⟩
  | excludePhrase =>
    obtain ⟨rfl, rfl⟩ := hpair (by decide) (by decide) ht
    exact ⟨.excludePhrase, fun _ => rfl⟩
  | includeWord =>
    obtain ⟨rfl, rfl⟩ := hpair (by decide) (by decide) ht
    exact ⟨.includeWord, fun _ => rfl⟩
  | includePhrase =>
    obtain ⟨rfl, rfl⟩ := hpair (by decide) (by decide) ht
    exact ⟨.includePhrase, fun _ => rfl⟩
  | prefixTerm =>
    obtain ⟨rfl, rfl⟩ := hpair (by decide) (by decide) ht
    exact ⟨.prefixTerm, fun _ => rfl⟩
  | exclusion =>
    obtain ⟨rfl, rfl⟩ := hone (by decide) ht
    exact ⟨.exclusion, fun _ => rfl⟩
  | inclusion =>
    obtain ⟨rfl, rfl⟩ := hone (by decide) ht
    exact ⟨.inclusion, fun _ => rfl⟩
  | prefixed =>
    obtain ⟨rfl, rfl⟩ := hone (by decide) ht
    exact ⟨.prefixed, fun _ => rfl⟩
  | plain =>
    obtain ⟨rfl, rfl⟩ := hone (by decide) ht
    exact ⟨.plain, fun _ => rfl⟩
  | group hu hv =>
    rw [List.append_assoc] at ht
    obtain ⟨_, rfl, h₁⟩ := ht.of_token (by decide)
    obtain ⟨u, _, _, rfl, hu, h₂⟩ := h₁.of_maybeSpace hu
    obtain ⟨_, _, rfl, -, h₃⟩ := h₂.of_node
    obtain ⟨v, _, _, rfl, hv, h₄⟩ := h₃.of_maybeSpace hv
    obtain ⟨_, rfl, h₅⟩ := h₄.of_token (by decide)
    obtain ⟨rfl, rfl⟩ := h₅.of_nil
    have hrhs := RightHandSide.group hu hv
    rw [List.append_assoc] at hrhs
    exact ⟨hrhs, fun _ => rfl⟩
  | @query u v hu hv =>
    rw [← List.append_nil v] at ht
    obtain ⟨u, _, _, rfl, hu, h₁⟩ := ht.of_maybeSpace hu
    obtain ⟨_, rfl, h₂⟩ := h₁.of_item (by decide)
    obtain ⟨v, _, _, rfl, hv, h₃⟩ := h₂.of_maybeSpace hv
    obtain ⟨rfl, -⟩ := h₃.of_nil
    rw [List.append_nil]
    exact ⟨.query hu hv, fun h => absurd rfl h⟩

/-- What kinds derive is derived from the thinned kinds once it is squeezed. -/
theorem Derives.exists_thinned {ks : List Kind} {w : List TokenKind} (h : Derives ks w) (b : Bool) :
    ∃ ls, Thinned b ks ls (endsSpaced b w) ∧ Derives ls (squeeze b w) := by
  induction h generalizing b with
  | nil => exact ⟨[], .nil, .nil⟩
  | @token a ks w _ ih =>
    obtain ⟨ls, hthinned, hls⟩ := ih (a = .whitespace)
    rw [squeeze, endsSpaced]
    by_cases ha : a = .whitespace
    · subst ha
      cases b with
      | true => exact ⟨ls, .dropped hthinned, hls⟩
      | false => exact ⟨_, .space hthinned, .token hls⟩
    · rw [if_neg ha]
      rw [decide_eq_false ha] at hthinned hls ⊢
      exact ⟨_, .token ha hthinned, .token hls⟩
  | @node k rhs ks u w hk _ _ ihu ih =>
    obtain ⟨rhs', hrhs, hu⟩ := ihu b
    obtain ⟨ls, hthinned, hls⟩ := ih (endsSpaced b u)
    obtain ⟨hk', hend⟩ := hk.thinned hrhs
    rw [squeeze_append, endsSpaced_append]
    exact ⟨_, .node hend hthinned, .node hk' hu hls⟩

/-- **A query stays one when whitespace is squeezed together.** -/
theorem IsQuery.squeeze {w : List TokenKind} (h : IsQuery w) : IsQuery (squeeze false w) := by
  obtain ⟨ls, hthinned, hls⟩ := Derives.exists_thinned h false
  obtain ⟨_, _, rfl, -, hend⟩ := hthinned.of_node
  obtain ⟨rfl, -⟩ := hend.of_nil
  exact hls

end Grammar
end BoolQuery
