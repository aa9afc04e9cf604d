/-
# Settled derivation trees

The grammar is ambiguous in one place: whitespace at the edges of a group may be taken by the group
or by the query in it. A derivation tree is settled when the group takes the whitespace behind its
opening parenthesis and the query takes the one before the closing parenthesis. Whatever is derived
has a settled derivation tree over the same tokens, provided that whitespace stands alone.
-/

import BoolQuery.Proofs.Grammar.Trees
import BoolQuery.Proofs.Lexing.Spacing
import Mathlib.Data.List.Infix

namespace BoolQuery

open Grammar

/-- In the parts of a group no query begins with whitespace, and no whitespace stands directly
before the closing parenthesis. -/
def GroupSettled (ts : Forest) : Prop :=
  (∀ q ∈ ts, q.kind = .node .query → ∀ u ∈ q.tokens.head?, u.kind ≠ .token .whitespace) ∧
    ¬ [.token .whitespace, .token .parenClose] <:+: ts.map Tree.kind

namespace Tree

/-- All groups of the tree are settled. -/
inductive Settled : Tree → Prop
  | leaf (t : Token) : Settled (.leaf t)
  | node {k : NodeKind} {ts : Forest} (hk : k = NodeKind.term → GroupSettled ts)
      (h : ∀ t ∈ ts, Settled t) : Settled (.node k ts)

theorem Settled.group {ts : Forest} (h : (Tree.node .term ts).Settled) : GroupSettled ts := by
  cases h with
  | node hk _ => exact hk rfl

theorem Settled.parts {k : NodeKind} {ts : Forest} (h : (Tree.node k ts).Settled) :
    ∀ t ∈ ts, t.Settled := by
  cases h with
  | node _ h => exact h

/-- The parts of a term that is no group are settled. -/
theorem groupSettled_singleton {ts : Forest} {k : NodeKind} (hts : ts.map kind = [.node k])
    (hk : k ≠ .query) : GroupSettled ts := by
  constructor
  · intro q hq hkind
    have hmem : q.kind ∈ ts.map kind := List.mem_map_of_mem hq
    rw [hts, List.mem_singleton, hkind] at hmem
    cases hmem
    exact absurd rfl hk
  · intro h
    have hlen := h.length_le
    rw [hts] at hlen
    simp only [List.length_cons, List.length_nil] at hlen
    omega

/-- Whitespace that may be missing is no token, or one token of whitespace. -/
theorem eq_of_maybeSpace {f : Forest} (h : MaybeSpace (f.map kind))
    (hf : ∀ t ∈ f, t.IsDerivation) :
    f = [] ∨ ∃ u, f = [.leaf u] ∧ u.kind = .token .whitespace := by
  rcases h with h | h
  · exact .inl (List.map_eq_nil_iff.1 h)
  · obtain ⟨t, rfl, ht⟩ := List.map_eq_singleton_iff.1 h
    obtain ⟨u, rfl, hu⟩ := (hf t (.head _)).eq_leaf ht
    exact .inr ⟨u, rfl, hu⟩

/-- Whitespace on both sides of a border is whitespace on one side of it, as whitespace stands
alone. -/
theorem maybeSpace_append {f g : Forest} (hf : MaybeSpace (f.map kind))
    (hg : MaybeSpace (g.map kind)) (hdf : ∀ t ∈ f, t.IsDerivation)
    (hdg : ∀ t ∈ g, t.IsDerivation) {ts us : List Token}
    (hs : Spaced (ts ++ (forestTokens f ++ forestTokens g) ++ us)) :
    MaybeSpace ((f ++ g).map kind) := by
  rw [List.map_append]
  rcases eq_of_maybeSpace hf hdf with rfl | ⟨a, rfl, ha⟩
  · exact hg
  · rcases eq_of_maybeSpace hg hdg with rfl | ⟨b, rfl, hb⟩
    · exact hf
    · rw [List.append_assoc] at hs
      exact absurd hb (hs.not_twice ha)

/-- The first token of an `OrTerm` is no whitespace. -/
theorem head_orTerm_ne_whitespace {t : Tree} (h : t.IsDerivation) (hk : t.kind = .node .orTerm)
    {f : Forest} : ∀ u ∈ (forestTokens (t :: f)).head?, u.kind ≠ .token .whitespace := by
  obtain ⟨u, us, a, hus, hu, ha⟩ := h.exists_first hk
  rw [forestTokens_cons, hus]
  intro v hv
  cases hv
  rw [hu]
  rintro hw
  cases hw
  exact absurd ha (by decide)

/-- The parts of a query. -/
theorem exists_query {ts : Forest} (h : RightHandSide .query (ts.map kind)) :
    ∃ f r g, ts = f ++ r :: g ∧ MaybeSpace (f.map kind) ∧ r.kind = .node .orTerm ∧
      MaybeSpace (g.map kind) := by
  generalize hks : ts.map kind = ks at h
  cases h with
  | query hu hv =>
    obtain ⟨f, rest, rfl, rfl, hrest⟩ := List.map_eq_append_iff.1 hks
    obtain ⟨r, g, rfl, hr, rfl⟩ := List.map_eq_cons_iff.1 hrest
    exact ⟨f, r, g, rfl, hu, hr, hv⟩

/-- The parts of a group. -/
theorem exists_group {ts : Forest} {u v : List Kind} (hd : ∀ t ∈ ts, t.IsDerivation)
    (hts : ts.map kind = .token .parenOpen :: u ++ .node .query :: v ++ [.token .parenClose]) :
    ∃ o f q g c, ts = .leaf o :: (f ++ .node .query q :: (g ++ [.leaf c])) ∧
      o.kind = .token .parenOpen ∧ f.map kind = u ∧ RightHandSide .query (q.map kind) ∧
      g.map kind = v ∧ c.kind = .token .parenClose := by
  rw [List.append_assoc, List.cons_append, List.cons_append] at hts
  obtain ⟨o, ts, rfl, ho, hts⟩ := List.map_eq_cons_iff.1 hts
  obtain ⟨f, ts, rfl, hf, hts⟩ := List.map_eq_append_iff.1 hts
  obtain ⟨q, ts, rfl, hq, hts⟩ := List.map_eq_cons_iff.1 hts
  obtain ⟨g, ts, rfl, hg, hts⟩ := List.map_eq_append_iff.1 hts
  obtain ⟨c, rfl, hc⟩ := List.map_eq_singleton_iff.1 hts
  obtain ⟨o, rfl, ho⟩ := (hd o (by simp)).eq_leaf ho
  obtain ⟨qs, rfl, hqs, -⟩ := (hd q (by simp)).eq_node hq
  obtain ⟨c, rfl, hc⟩ := (hd c (by simp)).eq_leaf hc
  exact ⟨o, f, qs, g, c, rfl, ho, hf, hqs, hg, hc⟩

/-- The parts of a settled group: nothing stands between its query and the closing parenthesis. -/
theorem exists_group_of_settled {ts : Forest} {u v : List Kind} (h : GroupSettled ts)
    (hd : ∀ t ∈ ts, t.IsDerivation) (hv : MaybeSpace v)
    (hts : ts.map kind = .token .parenOpen :: u ++ .node .query :: v ++ [.token .parenClose]) :
    ∃ o f q c, ts = .leaf o :: (f ++ [.node .query q, .leaf c]) ∧ o.kind = .token .parenOpen ∧
      f.map kind = u ∧ c.kind = .token .parenClose := by
  obtain ⟨o, f, q, g, c, rfl, ho, hf, -, rfl, hc⟩ := exists_group hd hts
  rcases hv with hv | hv
  · obtain rfl := List.map_eq_nil_iff.1 hv
    exact ⟨o, f, q, c, rfl, ho, hf, hc⟩
  · refine absurd ⟨.token .parenOpen :: (f.map kind ++ [.node .query]), [], ?_⟩ h.2
    rw [hts, hf, hv]
    simp

/-- A group is settled if its query begins with its `OrTerm` and is followed by the closing
parenthesis. -/
theorem groupSettled_of_parts {o c : Token} {f g : Forest} {r : Tree}
    (ho : o.kind = .token .parenOpen) (hf : MaybeSpace (f.map kind)) (hr : r.IsDerivation)
    (hk : r.kind = .node .orTerm) (hc : c.kind = .token .parenClose) :
    GroupSettled (.leaf o :: (f ++ [.node .query (r :: g), .leaf c])) := by
  have hkinds : (Tree.leaf o :: (f ++ [.node .query (r :: g), .leaf c])).map kind =
      .token .parenOpen :: (f.map kind ++ [.node .query, .token .parenClose]) := by
    rw [List.map_cons, List.map_append, List.map_cons, List.map_singleton, kind, kind, kind, ho, hc]
  constructor
  · intro t ht hkind
    simp only [List.mem_cons, List.mem_append, List.not_mem_nil, or_false] at ht
    rcases ht with rfl | ht | rfl | rfl
    · rw [kind, ho] at hkind
      cases hkind
    · have hmem := hf.eq_of_mem (List.mem_map_of_mem ht)
      rw [hkind] at hmem
      cases hmem
    · exact head_orTerm_ne_whitespace hr hk
    · rw [kind, hc] at hkind
      cases hkind
  · rw [hkinds]
    rcases hf with hf | hf <;> rw [hf] <;> decide

/-- A group whose whitespace is taken in any way can be settled: the whitespace `f'` at the
beginning of its query goes to the group, the whitespace `g` before the closing parenthesis to the
query. -/
theorem exists_settled_group {o c : Token} {f f' g' g : Forest} {r : Tree}
    (ho : o.kind = .token .parenOpen) (hc : c.kind = .token .parenClose)
    (hr : r.kind = .node .orTerm) (hf : MaybeSpace (f.map kind)) (hf' : MaybeSpace (f'.map kind))
    (hg' : MaybeSpace (g'.map kind)) (hg : MaybeSpace (g.map kind))
    (hd : ∀ t ∈ (f ++ f') ++ r :: (g' ++ g), t.IsDerivation ∧ t.Settled) {ts : List Token}
    (hts : ts = [o] ++ (forestTokens f ++ forestTokens f') ++
      (r.tokens ++ (forestTokens g' ++ forestTokens g) ++ [c]))
    (hs : Spaced ts) :
    ∃ t : Tree, t.kind = .node .term ∧ t.tokens = ts ∧ t.IsDerivation ∧ t.Settled := by
  rw [List.forall_mem_append, List.forall_mem_cons] at hd
  obtain ⟨hdf, hdr, hdg⟩ := hd
  -- Whitespace stands alone, so of two places for it side by side one is empty.
  have hff : MaybeSpace ((f ++ f').map kind) := by
    rw [hts] at hs
    refine maybeSpace_append hf hf' (fun t ht => ?_) (fun t ht => ?_) hs
    · exact (hdf t (List.mem_append_left f' ht)).1
    · exact (hdf t (List.mem_append_right f ht)).1
  have hgg : MaybeSpace ((g' ++ g).map kind) := by
    rw [hts, ← List.append_assoc, ← List.append_assoc] at hs
    refine maybeSpace_append hg' hg (fun t ht => ?_) (fun t ht => ?_) hs
    · exact (hdg t (List.mem_append_left g ht)).1
    · exact (hdg t (List.mem_append_right g' ht)).1
  have hquery : (Tree.node .query (r :: (g' ++ g))).IsDerivation ∧
      (Tree.node .query (r :: (g' ++ g))).Settled := by
    constructor
    · refine .node ?_ (List.forall_mem_cons.2 ⟨hdr.1, fun t ht => (hdg t ht).1⟩)
      rw [List.map_cons, hr]
      exact RightHandSide.query (.inl rfl) hgg
    · exact .node nofun (List.forall_mem_cons.2 ⟨hdr.2, fun t ht => (hdg t ht).2⟩)
  have hparts : ∀ t ∈ Tree.leaf o :: ((f ++ f') ++ [.node .query (r :: (g' ++ g)), .leaf c]),
      t.IsDerivation ∧ t.Settled := by
    rw [List.forall_mem_cons, List.forall_mem_append, List.forall_mem_cons,
      List.forall_mem_singleton]
    exact ⟨⟨.leaf ho, .leaf o⟩, hdf, hquery, .leaf hc, .leaf c⟩
  refine ⟨.node .term (.leaf o :: ((f ++ f') ++ [.node .query (r :: (g' ++ g)), .leaf c])),
    rfl, ?_, ?_, ?_⟩
  · rw [hts]
    simp [List.append_assoc]
  · refine .node ?_ fun t ht => (hparts t ht).1
    have hrhs := RightHandSide.group hff (.inl rfl)
    simpa [kind, ho, hc] using hrhs
  · exact .node (fun _ => groupSettled_of_parts ho hff hdr.1 hr hc) fun t ht => (hparts t ht).2

/-- The trees of a right-hand side have a settled node of the production over their tokens. -/
theorem exists_settled_node {k : NodeKind} {ts : Forest} (hrhs : RightHandSide k (ts.map kind))
    (hd : ∀ t ∈ ts, t.IsDerivation ∧ t.Settled) (hs : Spaced (forestTokens ts)) :
    ∃ t : Tree, t.kind = .node k ∧ t.tokens = forestTokens ts ∧ t.IsDerivation ∧ t.Settled := by
  have hsame : (k = .term → GroupSettled ts) →
      ∃ t : Tree, t.kind = .node k ∧ t.tokens = forestTokens ts ∧ t.IsDerivation ∧ t.Settled :=
    fun hk => ⟨.node k ts, rfl, rfl, .node hrhs fun t ht => (hd t ht).1,
      .node hk fun t ht => (hd t ht).2⟩
  generalize hks : ts.map kind = ks at hrhs
  cases hrhs with
  | exclusion | inclusion | prefixed | plain =>
    exact hsame fun _ => groupSettled_singleton hks (by decide)
  | group hu hv =>
    obtain ⟨o, f, q, g, c, rfl, ho, rfl, hq, rfl, hc⟩ :=
      exists_group (fun t ht => (hd t ht).1) hks
    obtain ⟨f', r, g', rfl, hf', hr, hg'⟩ := exists_query hq
    rw [List.forall_mem_cons, List.forall_mem_append, List.forall_mem_cons,
      List.forall_mem_append] at hd
    obtain ⟨-, hdf, ⟨hdq, hsq⟩, hdg, -⟩ := hd
    refine exists_settled_group ho hc hr hu hf' hg' hv ?_ ?_ hs
    · have hparts : ∀ t ∈ f' ++ r :: g', t.IsDerivation ∧ t.Settled :=
        fun t ht => ⟨hdq.parts t ht, hsq.parts t ht⟩
      rw [List.forall_mem_append, List.forall_mem_cons] at hparts
      simp only [List.forall_mem_append, List.forall_mem_cons]
      exact ⟨⟨hdf, hparts.1⟩, hparts.2.1, hparts.2.2, hdg⟩
    · simp [List.append_assoc]
  | _ => exact hsame nofun

end Tree

open BoolQuery.Tree

/-- Whatever is derived has settled derivation trees over the same tokens, side by side. -/
theorem exists_settled_forest {ks : List Kind} {w : List TokenKind} (h : Derives ks w)
    {ts : List Token} (hts : ts.map Token.kind = w.map Kind.token) (hs : Spaced ts) :
    ∃ f : Forest, f.map kind = ks ∧ forestTokens f = ts ∧
      ∀ t ∈ f, t.IsDerivation ∧ t.Settled := by
  induction h generalizing ts with
  | nil => exact ⟨[], rfl, (List.map_eq_nil_iff.1 hts).symm, nofun⟩
  | @token k ks w _ ih =>
    obtain ⟨t, us, rfl, ht, hus⟩ := List.map_eq_cons_iff.1 hts
    obtain ⟨f, rfl, rfl, hf⟩ := ih hus hs.tail
    exact ⟨.leaf t :: f, by rw [List.map_cons, kind, ht], forestTokens_cons _ f,
      List.forall_mem_cons.2 ⟨⟨.leaf ht, .leaf t⟩, hf⟩⟩
  | @node k rhs ks u w hk _ _ ihu ih =>
    rw [List.map_append] at hts
    obtain ⟨us, vs, rfl, hus, hvs⟩ := List.map_eq_append_iff.1 hts
    obtain ⟨g, rfl, rfl, hg⟩ := ihu hus hs.left_of_append
    obtain ⟨f, rfl, rfl, hf⟩ := ih hvs hs.right_of_append
    obtain ⟨t, ht, htokens, hd, hsettled⟩ := exists_settled_node hk hg hs.left_of_append
    refine ⟨t :: f, ?_, ?_, List.forall_mem_cons.2 ⟨⟨hd, hsettled⟩, hf⟩⟩
    · rw [List.map_cons, ht]
    · rw [forestTokens_cons, htokens]

/-- **Whatever is derived from one kind has a settled derivation tree** over the same tokens. -/
theorem exists_settled {k : Kind} {w : List TokenKind} (h : Derives [k] w) {ts : List Token}
    (hts : ts.map Token.kind = w.map Kind.token) (hs : Spaced ts) :
    ∃ t : Tree, t.kind = k ∧ t.tokens = ts ∧ t.IsDerivation ∧ t.Settled := by
  obtain ⟨f, hf, htokens, hall⟩ := exists_settled_forest h hts hs
  obtain ⟨t, rfl, hk⟩ := List.map_eq_singleton_iff.1 hf
  obtain ⟨hd, hsettled⟩ := hall t (.head _)
  rw [forestTokens_singleton] at htokens
  exact ⟨t, hk, htokens, hd, hsettled⟩

end BoolQuery
