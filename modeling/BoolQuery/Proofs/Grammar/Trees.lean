/-
# What derivation trees look like

A derivation tree is taken apart by the kind at its root: under the kind of a token there is a
token, under the kind of a node a right-hand side. From that follow the tokens of a tree: they have
a width, the first one is among the few that its production can begin with, and their kinds are what
the grammar derives.
-/

import BoolQuery.Grammar.Derivation

namespace BoolQuery

open Grammar

namespace Tree

/-- Under the kind of a token there is a token. -/
theorem IsDerivation.eq_leaf {t : Tree} {k : TokenKind} (h : t.IsDerivation)
    (hk : t.kind = .token k) : ∃ u, t = .leaf u ∧ u.kind = .token k := by
  cases h with
  | @leaf u l _ => exact ⟨u, rfl, hk⟩
  | node _ _ => cases hk

/-- Under the kind of a nonterminal there is a node over one of its right-hand sides. -/
theorem IsDerivation.eq_node {t : Tree} {k : NodeKind} (h : t.IsDerivation)
    (hk : t.kind = .node k) :
    ∃ ts, t = .node k ts ∧ RightHandSide k (ts.map Tree.kind) ∧ ∀ u ∈ ts, u.IsDerivation := by
  cases h with
  | @leaf u l hl =>
    rw [Tree.kind, hl] at hk
    cases hk
  | @node l ts hrhs hts =>
    obtain rfl : l = k := by
      cases hk
      rfl
    exact ⟨ts, rfl, hrhs, hts⟩

/-- The parts of a derivation are derivations. -/
theorem IsDerivation.parts {k : NodeKind} {ts : Forest} (h : (Tree.node k ts).IsDerivation) :
    ∀ t ∈ ts, t.IsDerivation := by
  cases h with
  | node _ h => exact h

/-- Trees of the kinds of tokens are these tokens. -/
theorem eq_map_leaf (ks : List TokenKind) {f : Forest} (hf : ∀ t ∈ f, t.IsDerivation)
    (hks : f.map kind = ks.map Kind.token) :
    ∃ us : List Token, f = us.map leaf ∧ us.map Token.kind = ks.map Kind.token := by
  induction ks generalizing f with
  | nil =>
    obtain rfl := List.map_eq_nil_iff.1 hks
    exact ⟨[], rfl, rfl⟩
  | cons k ks ih =>
    obtain ⟨t, g, rfl, ht, hg⟩ := List.map_eq_cons_iff.1 hks
    obtain ⟨u, rfl, hu⟩ := (hf t (.head _)).eq_leaf ht
    obtain ⟨us, rfl, hus⟩ := ih (fun x hx => hf x (.tail _ hx)) hg
    exact ⟨u :: us, rfl, by rw [List.map_cons, hu, hus, List.map_cons]⟩

/-- Leaves side by side have the tokens they are made of. -/
theorem forestTokens_map_leaf (us : List Token) : forestTokens (us.map leaf) = us := by
  induction us with
  | nil => rfl
  | cons u us ih => rw [List.map_cons, forestTokens_cons, ih, tokens_leaf, List.singleton_append]

end Tree

namespace Grammar

/-! ### Tokens have a width -/

/-- A chain is made of its item and of what stands between. -/
theorem mem_chain {item : Kind} {between : List Kind} {n : Nat} {x : Kind}
    (h : x ∈ chain item between n) : x = item ∨ x ∈ between := by
  rw [chain, List.mem_cons, List.mem_flatten] at h
  rcases h with h | ⟨l, hl, hx⟩
  · exact .inl h
  · rw [(List.mem_replicate.1 hl).2, List.mem_append, List.mem_singleton] at hx
    exact hx.symm

/-- Optional whitespace holds whitespace only. -/
theorem MaybeSpace.eq_of_mem {u : List Kind} (h : MaybeSpace u) {x : Kind} (hx : x ∈ u) :
    x = .token .whitespace := by
  rcases h with rfl | rfl
  · cases hx
  · exact List.mem_singleton.1 hx

/-- No right-hand side asks for the end of a line or for a character that begins no token. -/
theorem RightHandSide.isZeroWidth {k : NodeKind} {rhs : List Kind} (h : RightHandSide k rhs)
    {x : Kind} (hx : x ∈ rhs) : x.isZeroWidth = false := by
  cases h with
  | wordSequence n =>
    rcases mem_chain hx with rfl | hx
    · rfl
    · rw [List.mem_singleton.1 hx]
      rfl
  | andTerm n =>
    rcases mem_chain hx with rfl | hx
    · rfl
    · simp only [List.mem_cons, List.not_mem_nil, or_false] at hx
      rcases hx with rfl | rfl | rfl <;> rfl
  | orTerm n =>
    rcases mem_chain hx with rfl | hx
    · rfl
    · simp only [List.mem_cons, List.not_mem_nil, or_false] at hx
      rcases hx with rfl | rfl | rfl <;> rfl
  | group hu hv =>
    simp only [List.mem_append, List.mem_cons, List.not_mem_nil, or_false] at hx
    rcases hx with ((rfl | hx) | rfl | hx) | rfl
    · rfl
    · rw [hu.eq_of_mem hx]
      rfl
    · rfl
    · rw [hv.eq_of_mem hx]
      rfl
    · rfl
  | query hu hv =>
    simp only [List.mem_append, List.mem_cons] at hx
    rcases hx with hx | rfl | hx
    · rw [hu.eq_of_mem hx]
      rfl
    · rfl
    · rw [hv.eq_of_mem hx]
      rfl
  | _ =>
    simp only [List.mem_cons, List.not_mem_nil, or_false] at hx
    rcases hx with rfl | rfl <;> rfl

/-- From kinds with a width only such kinds are derived. -/
theorem Derives.isZeroWidth {ks : List Kind} {w : List TokenKind} (h : Derives ks w)
    (hks : ∀ x ∈ ks, x.isZeroWidth = false) : ∀ a ∈ w, (Kind.token a).isZeroWidth = false := by
  induction h with
  | nil => exact nofun
  | token _ ih =>
    rw [List.forall_mem_cons] at hks ⊢
    exact ⟨hks.1, ih hks.2⟩
  | node hk _ _ ihu ih =>
    rw [List.forall_mem_cons] at hks
    rw [List.forall_mem_append]
    exact ⟨ihu fun _ => hk.isZeroWidth, ih hks.2⟩

end Grammar

namespace Tree

/-- The tokens of a derivation have a width if its kind has one. -/
theorem IsDerivation.isZeroWidth {t : Tree} (h : t.IsDerivation)
    (hk : t.kind.isZeroWidth = false) : ∀ u ∈ t.tokens, u.kind.isZeroWidth = false := by
  induction h with
  | leaf hl =>
    intro u hu
    rw [tokens_leaf, List.mem_singleton] at hu
    rwa [hu]
  | @node k ts hrhs _ ih =>
    intro u hu
    rw [tokens_node, forestTokens_eq_flatMap, List.mem_flatMap] at hu
    obtain ⟨t, ht, hu⟩ := hu
    exact ih t ht (hrhs.isZeroWidth (List.mem_map_of_mem ht)) u hu

/-! ### The kinds of the tokens are derived -/

/-- Trees whose tokens are derived, one by one, are derived side by side. -/
theorem forest_derives {f : Forest} (h : ∀ t ∈ f, ∃ w : List TokenKind,
      t.tokens.map Token.kind = w.map Kind.token ∧ Derives [t.kind] w) :
    ∃ w : List TokenKind, (forestTokens f).map Token.kind = w.map Kind.token ∧
      Derives (f.map Tree.kind) w := by
  induction f with
  | nil => exact ⟨[], rfl, .nil⟩
  | cons t f ih =>
    rw [List.forall_mem_cons] at h
    obtain ⟨⟨u, hu, hdu⟩, hf⟩ := h
    obtain ⟨w, hw, hdw⟩ := ih hf
    refine ⟨u ++ w, ?_, hdu.append hdw⟩
    rw [forestTokens_cons, List.map_append, hu, hw, List.map_append]

/-- **Reading off a derivation tree.** The kinds of its tokens are derived from the kind at its
root. -/
theorem IsDerivation.derives {t : Tree} (h : t.IsDerivation) :
    ∃ w : List TokenKind, t.tokens.map Token.kind = w.map Kind.token ∧ Derives [t.kind] w := by
  induction h with
  | @leaf u k hk =>
    refine ⟨[k], ?_, ?_⟩
    · rw [tokens_leaf, List.map_singleton, hk, List.map_singleton]
    · rw [Tree.kind, hk]
      exact .token .nil
  | @node k ts hrhs _ ih =>
    obtain ⟨w, hw, hd⟩ := forest_derives ih
    exact ⟨w, hw, .single hrhs hd⟩

end Tree

namespace Grammar

/-! ### Every production derives something -/

/-- A short stretch of tokens that a production derives. -/
def briefest : NodeKind → List TokenKind
  | .exclusion => [.excludeOp, .word]
  | .inclusion => [.includeOp, .word]
  | .prefixTerm => [.word, .starOp]
  | _ => [.word]

/-- Every production derives its short stretch of tokens. -/
theorem derives_briefest (k : NodeKind) : Derives [.node k] (briefest k) := by
  have hwords : Derives [.node .wordSequence] [.word] := .single (.wordSequence 0) (.token .nil)
  have hplain : Derives [.node .phraseOrWords] [.word] := .single .words hwords
  have hterm : Derives [.node .term] [.word] := .single .plain hplain
  have handTerm : Derives [.node .andTerm] [.word] := .single (.andTerm 0) hterm
  have horTerm : Derives [.node .orTerm] [.word] := .single (.orTerm 0) handTerm
  cases k with
  | wordSequence => exact hwords
  | phraseOrWords => exact hplain
  | exclusion => exact .single .excludeWord (.token (.token .nil))
  | inclusion => exact .single .includeWord (.token (.token .nil))
  | prefixTerm => exact .single .prefixTerm (.token (.token .nil))
  | term => exact hterm
  | andTerm => exact handTerm
  | orTerm => exact horTerm
  | query => exact .single (.query (u := []) (v := []) (.inl rfl) (.inl rfl)) horTerm

/-! ### First tokens -/

/-- The kinds of tokens that a production can begin with. -/
def firsts : NodeKind → List TokenKind
  | .wordSequence | .prefixTerm => [.word]
  | .phraseOrWords => [.phrase, .word]
  | .exclusion => [.excludeOp]
  | .inclusion => [.includeOp]
  | .term | .andTerm | .orTerm => [.excludeOp, .includeOp, .word, .phrase, .parenOpen]
  | .query => [.whitespace, .excludeOp, .includeOp, .word, .phrase, .parenOpen]

/-- A right-hand side begins with a token that its production can begin with, or with a node that
can begin with no others. -/
theorem RightHandSide.exists_first {k : NodeKind} {rhs : List Kind} (h : RightHandSide k rhs) :
    ∃ x ks, rhs = x :: ks ∧
      ((∃ a, x = .token a ∧ a ∈ firsts k) ∨ ∃ l, x = .node l ∧ firsts l ⊆ firsts k) := by
  cases h with
  | wordSequence _ | phrase | excludeWord | excludePhrase | includeWord | includePhrase
  | prefixTerm | group _ _ => exact ⟨_, _, rfl, .inl ⟨_, rfl, by decide⟩⟩
  | words | exclusion | inclusion | prefixed | plain | andTerm _ | orTerm _ =>
    exact ⟨_, _, rfl, .inr ⟨_, rfl, by decide⟩⟩
  | query hu hv =>
    rcases hu with rfl | rfl
    · exact ⟨_, _, rfl, .inr ⟨_, rfl, by decide⟩⟩
    · exact ⟨_, _, rfl, .inl ⟨_, rfl, by decide⟩⟩

end Grammar

namespace Tree

/-- The first token of a node is one that its production can begin with. -/
theorem IsDerivation.exists_first {t : Tree} (h : t.IsDerivation) {k : NodeKind}
    (hk : t.kind = .node k) :
    ∃ u us a, t.tokens = u :: us ∧ u.kind = .token a ∧ a ∈ firsts k := by
  induction h generalizing k with
  | leaf hl =>
    rw [Tree.kind, hl] at hk
    cases hk
  | @node l ts hrhs hts ih =>
    obtain rfl : l = k := by
      cases hk
      rfl
    obtain ⟨x, ks, hx, hfirst⟩ := hrhs.exists_first
    obtain ⟨t, f, rfl, ht, -⟩ := List.map_eq_cons_iff.1 hx
    rw [tokens_node, forestTokens_cons]
    rcases hfirst with ⟨a, rfl, ha⟩ | ⟨m, rfl, hm⟩
    · obtain ⟨u, rfl, hu⟩ := (hts t (.head _)).eq_leaf ht
      exact ⟨u, forestTokens f, a, rfl, hu, ha⟩
    · obtain ⟨u, us, a, hus, hu, ha⟩ := ih t (.head _) ht
      exact ⟨u, us ++ forestTokens f, a, by rw [hus, List.cons_append], hu, hm ha⟩

end Tree

namespace Grammar

/-! ### Last tokens -/

/-- A chain ends with its item. -/
theorem chain_eq_append (item : Kind) (between : List Kind) (n : Nat) :
    ∃ ks, chain item between n = ks ++ [item] := by
  cases n with
  | zero => exact ⟨[], rfl⟩
  | succ n =>
    refine ⟨chain item between n ++ between, ?_⟩
    rw [chain, chain, List.replicate_succ', List.flatten_append, List.flatten_singleton]
    simp only [List.cons_append, List.append_assoc]

/-- The kinds of tokens that a production can end with. -/
def lasts : NodeKind → List TokenKind
  | .wordSequence => [.word]
  | .phraseOrWords | .exclusion | .inclusion => [.phrase, .word]
  | .prefixTerm => [.starOp]
  | .term | .andTerm | .orTerm => [.phrase, .word, .starOp, .parenClose]
  | .query => [.phrase, .word, .starOp, .parenClose, .whitespace]

/-- A right-hand side ends with a token that its production can end with, or with a node that can
end with no others. -/
theorem RightHandSide.exists_last {k : NodeKind} {rhs : List Kind} (h : RightHandSide k rhs) :
    ∃ ks x, rhs = ks ++ [x] ∧
      ((∃ a, x = .token a ∧ a ∈ lasts k) ∨ ∃ l, x = .node l ∧ lasts l ⊆ lasts k) := by
  cases h with
  | wordSequence n =>
    obtain ⟨ks, hks⟩ := chain_eq_append (.token .word) [.token .whitespace] n
    exact ⟨ks, _, hks, .inl ⟨_, rfl, by decide⟩⟩
  | andTerm n =>
    obtain ⟨ks, hks⟩ := chain_eq_append (.node .term)
      [.token .whitespace, .token .kwAnd, .token .whitespace] n
    exact ⟨ks, _, hks, .inr ⟨_, rfl, by decide⟩⟩
  | orTerm n =>
    obtain ⟨ks, hks⟩ := chain_eq_append (.node .andTerm)
      [.token .whitespace, .token .kwOr, .token .whitespace] n
    exact ⟨ks, _, hks, .inr ⟨_, rfl, by decide⟩⟩
  | phrase => exact ⟨[], _, rfl, .inl ⟨_, rfl, by decide⟩⟩
  | excludeWord | excludePhrase | includeWord | includePhrase | prefixTerm =>
    exact ⟨[_], _, rfl, .inl ⟨_, rfl, by decide⟩⟩
  | group hu hv => exact ⟨_, _, rfl, .inl ⟨_, rfl, by decide⟩⟩
  | words | exclusion | inclusion | prefixed | plain =>
    exact ⟨[], _, rfl, .inr ⟨_, rfl, by decide⟩⟩
  | @query u v hu hv =>
    rcases hv with rfl | rfl
    · exact ⟨u, _, rfl, .inr ⟨_, rfl, by decide⟩⟩
    · have happend : u ++ [.node .orTerm, .token .whitespace] =
          (u ++ [.node .orTerm]) ++ [.token .whitespace] := by simp
      exact ⟨_, _, happend, .inl ⟨_, rfl, by decide⟩⟩

end Grammar

namespace Tree

/-- The last token of a node is one that its production can end with. -/
theorem IsDerivation.exists_last {t : Tree} (h : t.IsDerivation) {k : NodeKind}
    (hk : t.kind = .node k) :
    ∃ us u a, t.tokens = us ++ [u] ∧ u.kind = .token a ∧ a ∈ lasts k := by
  induction h generalizing k with
  | leaf hl =>
    rw [Tree.kind, hl] at hk
    cases hk
  | @node l ts hrhs hts ih =>
    obtain rfl : l = k := by
      cases hk
      rfl
    obtain ⟨ks, x, hks, hlast⟩ := hrhs.exists_last
    obtain ⟨f, g, rfl, -, hg⟩ := List.map_eq_append_iff.1 hks
    obtain ⟨t, rfl, rfl⟩ := List.map_eq_singleton_iff.1 hg
    have ht : t ∈ f ++ [t] := List.mem_append_right f (.head _)
    rw [tokens_node, forestTokens_append, forestTokens_singleton]
    rcases hlast with ⟨a, hx, ha⟩ | ⟨m, hx, hm⟩
    · obtain ⟨u, rfl, hu⟩ := (hts t ht).eq_leaf hx
      exact ⟨forestTokens f, u, a, rfl, hu, ha⟩
    · obtain ⟨us, u, a, hus, hu, ha⟩ := ih t ht hx
      exact ⟨forestTokens f ++ us, u, a, by rw [hus, List.append_assoc], hu, hm ha⟩

end Tree

end BoolQuery
