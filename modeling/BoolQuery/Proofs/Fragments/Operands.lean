/-
# The operands of the connectives

`AND` binds tighter than `OR`. What the tree of a line puts together can be read off the tokens
alone: the terms of an `AndTerm` are the pieces between the `AND` keywords that stand outside of all
parentheses, the alternatives of a query are the pieces between its `OR` keywords
(`recognize_operands`).

| tokens | cut at `OR` | cut at `AND` |
| --- | --- | --- |
| `a OR b AND c` | `a`, `b AND c` | |
| `b AND c` | | `b`, `c` |
| `d AND (e OR f)` | `d AND (e OR f)` | `d`, `(e OR f)` |

The tokens of a node pass such a cut whole if they stand in parentheses, or if the production binds
tighter than the one that the keyword belongs to: the keyword is then found in groups only.
-/

import BoolQuery.Proofs.Fragments.Grouping
import BoolQuery.Proofs.Fragments.Parts

namespace BoolQuery

open Grammar RecognizerM Relation

namespace Token

/-! ### Cutting tokens at a keyword -/

/-- How many parentheses are open behind a token of a kind, if `depth` are open in front of it. -/
def depthBehind (depth : Nat) (k : Kind) : Nat :=
  if k = .token .parenOpen then depth + 1
  else if k = .token .parenClose then depth - 1
  else depth

/-- Cuts tokens at the keyword wherever no parenthesis is open. The first piece, and the pieces
behind it; `depth` is the number of parentheses that are open in front. -/
def cutOutside (keyword : TokenKind) : (depth : Nat) → List Token → List Token × List (List Token)
  | _, [] => ([], [])
  | depth, t :: ts =>
    if depth = 0 ∧ t.kind = .token keyword then
      let (piece, pieces) := cutOutside keyword depth ts
      ([], piece :: pieces)
    else
      let (piece, pieces) := cutOutside keyword (depthBehind depth t.kind) ts
      (t :: piece, pieces)

/-- The tokens behind the whitespace that they begin with. -/
def withoutFirstSpace? : List Token → Option (List Token)
  | [] => none
  | t :: ts => if t.kind = .token .whitespace then some ts else none

/-- The tokens in front of the whitespace that they end with. -/
def withoutLastSpace? (ts : List Token) : Option (List Token) :=
  (withoutFirstSpace? ts.reverse).map List.reverse

/-- Pieces without the whitespace on both sides of every cut, which has to be there. -/
def unspaced? (piece : List Token) : List (List Token) → Option (List (List Token))
  | [] => some [piece]
  | next :: pieces => do
    let first ← withoutLastSpace? piece
    let next ← withoutFirstSpace? next
    let others ← unspaced? next pieces
    some (first :: others)

/-- The pieces of the tokens between the keywords that stand outside of all parentheses. Each
keyword has whitespace on both sides, which goes with it. -/
def operands? (keyword : TokenKind) (ts : List Token) : Option (List (List Token)) :=
  let (piece, pieces) := cutOutside keyword 0 ts
  unspaced? piece pieces

/-- The tokens without whitespace at either end. -/
def edgeless (ts : List Token) : List Token :=
  let ts := (withoutFirstSpace? ts).getD ts
  (withoutLastSpace? ts).getD ts

/-! ### Edges -/

/-- Whitespace in front is taken off. -/
theorem withoutFirstSpace?_cons {t : Token} (ht : t.kind = .token .whitespace) (ts : List Token) :
    withoutFirstSpace? (t :: ts) = some ts := if_pos ht

/-- Tokens that begin with anything else lose nothing in front. -/
theorem withoutFirstSpace?_eq_none {ts : List Token}
    (h : ∀ t ∈ ts.head?, t.kind ≠ .token .whitespace) : withoutFirstSpace? ts = none := by
  cases ts with
  | nil => rfl
  | cons t ts => exact if_neg (h t rfl)

/-- Whitespace at the end is taken off. -/
theorem withoutLastSpace?_concat {t : Token} (ht : t.kind = .token .whitespace) (ts : List Token) :
    withoutLastSpace? (ts ++ [t]) = some ts := by
  rw [withoutLastSpace?, List.reverse_concat, withoutFirstSpace?_cons ht, Option.map_some,
    List.reverse_reverse]

/-- Tokens that end in anything else lose nothing at the end. -/
theorem withoutLastSpace?_eq_none {ts : List Token}
    (h : ∀ t ∈ ts.getLast?, t.kind ≠ .token .whitespace) : withoutLastSpace? ts = none := by
  rw [withoutLastSpace?, withoutFirstSpace?_eq_none (by rwa [List.head?_reverse]), Option.map_none]

/-- A cut between whitespace. -/
theorem unspaced?_cons {v w : Token} (hv : v.kind = .token .whitespace)
    (hw : w.kind = .token .whitespace) (ts : List Token) {us : List Token}
    {pieces others : List (List Token)} (h : unspaced? us pieces = some others) :
    unspaced? (ts ++ [v]) ((w :: us) :: pieces) = some (ts :: others) := by
  rw [unspaced?, withoutLastSpace?_concat hv, withoutFirstSpace?_cons hw]
  show (unspaced? us pieces).bind (fun others => some (ts :: others)) = _
  rw [h, Option.bind_some]

/-! ### Tokens that a cut passes -/

/-- The tokens go whole into a piece, with what follows them up to the next cut. -/
def Passes (keyword : TokenKind) (depth : Nat) (ts : List Token) : Prop :=
  ∀ rest, cutOutside keyword depth (ts ++ rest) =
    (ts ++ (cutOutside keyword depth rest).1, (cutOutside keyword depth rest).2)

namespace Passes

variable {keyword : TokenKind} {depth : Nat} {ts us : List Token}

/-- The empty list passes at any depth. -/
theorem nil : Passes keyword depth [] := fun _ => rfl

/-- Tokens that pass, one list after the other, pass together. -/
theorem append (ht : Passes keyword depth ts) (hu : Passes keyword depth us) :
    Passes keyword depth (ts ++ us) := by
  intro rest
  rw [List.append_assoc, ht, hu, List.append_assoc]

/-- A token that is no parenthesis passes if it is not the keyword, and in parentheses anyway. -/
theorem token {t : Token} (ht : 0 < depth ∨ t.kind ≠ .token keyword)
    (hopen : t.kind ≠ .token .parenOpen) (hclose : t.kind ≠ .token .parenClose) :
    Passes keyword depth [t] := by
  intro rest
  have hstays : ¬(depth = 0 ∧ t.kind = .token keyword) := by
    rintro ⟨hdepth, hk⟩
    rcases ht with ht | ht
    · omega
    · exact ht hk
  rw [List.singleton_append, cutOutside, if_neg hstays, depthBehind, if_neg hopen, if_neg hclose]
  rfl

/-- Tokens in parentheses pass if they do with one parenthesis more in front. -/
theorem group {o c : Token} (ho : o.kind = .token .parenOpen) (hc : c.kind = .token .parenClose)
    (hopen : keyword ≠ .parenOpen) (ht : Passes keyword (depth + 1) ts) :
    Passes keyword depth (o :: (ts ++ [c])) := by
  intro rest
  have hstays : ¬(depth = 0 ∧ o.kind = .token keyword) := by
    rintro ⟨-, hk⟩
    rw [ho] at hk
    exact hopen (Kind.token.inj hk).symm
  have hbehind : depthBehind (depth + 1) c.kind = depth := by
    rw [depthBehind, hc, if_neg (by decide), if_pos rfl, Nat.add_sub_cancel]
  have hcut : cutOutside keyword (depth + 1) (ts ++ c :: rest) =
      (ts ++ c :: (cutOutside keyword depth rest).1, (cutOutside keyword depth rest).2) := by
    rw [ht, cutOutside, if_neg (by omega), hbehind]
  rw [List.cons_append, List.append_assoc, List.singleton_append, cutOutside, if_neg hstays,
    depthBehind, ho, if_pos rfl, hcut, List.cons_append, List.append_assoc, List.singleton_append]

/-- A forest passes if each of its trees does. -/
theorem forest {f : Forest} (h : ∀ t ∈ f, Passes keyword depth t.tokens) :
    Passes keyword depth (Tree.forestTokens f) := by
  induction f with
  | nil => exact nil
  | cons t f ih =>
    rw [List.forall_mem_cons] at h
    rw [Tree.forestTokens_cons]
    exact h.1.append (ih h.2)

end Passes

/-- A keyword between whitespace ends a piece. -/
theorem cutOutside_keyword {keyword : TokenKind} {ts : List Token} {v k w : Token}
    (ht : Passes keyword 0 ts) (hv : Passes keyword 0 [v]) (hk : k.kind = .token keyword)
    (hw : Passes keyword 0 [w]) (rest : List Token) :
    cutOutside keyword 0 (ts ++ v :: k :: w :: rest) =
      (ts ++ [v], (w :: (cutOutside keyword 0 rest).1) :: (cutOutside keyword 0 rest).2) := by
  have hbehind : cutOutside keyword 0 (w :: rest) =
      (w :: (cutOutside keyword 0 rest).1, (cutOutside keyword 0 rest).2) := hw rest
  have hat : cutOutside keyword 0 (k :: w :: rest) =
      ([], (w :: (cutOutside keyword 0 rest).1) :: (cutOutside keyword 0 rest).2) := by
    rw [cutOutside, if_pos ⟨rfl, hk⟩, hbehind]
  have hpasses := ht.append hv (k :: w :: rest)
  rwa [List.append_assoc, List.singleton_append, hat, List.append_nil] at hpasses

end Token

/-! ### Where a keyword stands -/

namespace Grammar

/-- The keyword stands between the items of the production. -/
inductive Joins : NodeKind → TokenKind → Prop
  | and : Joins .andTerm .kwAnd
  | or : Joins .orTerm .kwOr

/-- What a right-hand side of the production may have outside of a group: a production that binds
tighter, or a token that is no parenthesis and no keyword of another production. -/
def Outside (k : NodeKind) (x : Kind) : Prop :=
  (∃ l, x = .node l ∧ rank l < rank k) ∨
    ∃ a, x = .token a ∧ a ≠ .parenOpen ∧ a ≠ .parenClose ∧ ∀ m, Joins m a → k = m

/-- A production that binds tighter may stand outside of a group. -/
theorem outside_node {k l : NodeKind} (h : rank l < rank k) : Outside k (.node l) :=
  .inl ⟨l, rfl, h⟩

/-- Whitespace may stand outside of a group. -/
theorem outside_whitespace (k : NodeKind) : Outside k (.token .whitespace) :=
  .inr ⟨.whitespace, rfl, by decide, by decide, nofun⟩

/-- A keyword may stand outside of a group of the production that it joins. -/
theorem Joins.outside {k : NodeKind} {keyword : TokenKind} (h : Joins k keyword) :
    Outside k (.token keyword) := by
  refine .inr ⟨keyword, rfl, ?_, ?_, fun m hm => ?_⟩
  · cases h <;> decide
  · cases h <;> decide
  · cases h <;> · cases hm; rfl

/-- Optional whitespace may stand outside of a group. -/
theorem MaybeSpace.outside {ks : List Kind} (h : MaybeSpace ks) (k : NodeKind) :
    ∀ x ∈ ks, Outside k x := by
  intro x hx
  rw [h.eq_of_mem hx]
  exact outside_whitespace k

/-- Operands that bind tighter may stand outside of a group with the keyword between them. -/
theorem Joins.outside_chain {k l : NodeKind} {keyword : TokenKind} (h : Joins k keyword)
    (hrank : rank l < rank k) (n : Nat) : ∀ x ∈ chain (.node l)
      [.token .whitespace, .token keyword, .token .whitespace] n, Outside k x := by
  intro x hx
  rcases mem_chain hx with rfl | hx
  · exact outside_node hrank
  · simp only [List.mem_cons, List.not_mem_nil, or_false] at hx
    rcases hx with rfl | rfl | rfl
    · exact outside_whitespace k
    · exact h.outside
    · exact outside_whitespace k

/-- A right-hand side is a group, or all of it stands outside of groups. -/
theorem RightHandSide.group_or_outside {k : NodeKind} {rhs : List Kind} (h : RightHandSide k rhs) :
    (∃ u v, MaybeSpace u ∧ MaybeSpace v ∧
      rhs = .token .parenOpen :: u ++ .node .query :: v ++ [.token .parenClose]) ∨
    ∀ x ∈ rhs, Outside k x := by
  cases h with
  | group hu hv => exact .inl ⟨_, _, hu, hv, rfl⟩
  | wordSequence n =>
    refine .inr fun x hx => ?_
    rcases mem_chain hx with rfl | hx
    · exact .inr ⟨_, rfl, by decide, by decide, nofun⟩
    · rw [List.mem_singleton.1 hx]
      exact outside_whitespace _
  | andTerm n => exact .inr (Joins.and.outside_chain (by decide) n)
  | orTerm n => exact .inr (Joins.or.outside_chain (by decide) n)
  | query hu hv =>
    rw [List.forall_mem_append, List.forall_mem_cons]
    exact .inr ⟨hu.outside _, outside_node (by decide), hv.outside _⟩
  | words | exclusion | inclusion | prefixed | plain =>
    exact .inr (List.forall_mem_singleton.2 (outside_node (by decide)))
  | phrase | excludeWord | excludePhrase | includeWord | includePhrase | prefixTerm =>
    refine .inr fun x hx => .inr ?_
    simp only [List.mem_cons, List.not_mem_nil, or_false] at hx
    rcases hx with rfl | rfl <;> exact ⟨_, rfl, by decide, by decide, nofun⟩

end Grammar

namespace Tree

open Token

variable {m : NodeKind} {keyword : TokenKind}

/-- Whitespace is no keyword and no parenthesis, so it passes at every depth. -/
theorem passes_whitespace (hm : Joins m keyword) (depth : Nat) {u : Token}
    (hu : u.kind = .token .whitespace) : Passes keyword depth [u] := by
  refine .token (.inr ?_) ?_ ?_
  · rw [hu]
    rintro ⟨⟩
    cases hm
  · rw [hu]
    nofun
  · rw [hu]
    nofun

/-- A node passes a cut if it stands in parentheses, or if it binds tighter than the production that
the keyword belongs to. -/
theorem IsDerivation.passes (hm : Joins m keyword) {t : Tree} (h : t.IsDerivation) {k : NodeKind}
    (hk : t.kind = .node k) {depth : Nat} (hdepth : 0 < depth ∨ rank k < rank m) :
    Passes keyword depth t.tokens := by
  induction h generalizing k depth with
  | leaf hl =>
    rw [Tree.kind, hl] at hk
    cases hk
  | @node l ts hrhs hts ih =>
    obtain rfl : l = k := by
      cases hk
      rfl
    rw [tokens_node]
    rcases hrhs.group_or_outside with ⟨u, v, hu, hv, hgroup⟩ | houtside
    · obtain ⟨o, f, q, g, c, rfl, ho, rfl, -, rfl, hc⟩ := exists_group hts hgroup
      have hinner : ∀ t ∈ f ++ .node .query q :: g, Passes keyword (depth + 1) t.tokens := by
        have hspace : ∀ g : Forest, MaybeSpace (g.map Tree.kind) → (∀ t ∈ g, t.IsDerivation) →
            ∀ t ∈ g, Passes keyword (depth + 1) t.tokens := by
          intro g hg hd t ht
          obtain ⟨u, rfl, hu⟩ := (hd t ht).eq_leaf (hg.eq_of_mem (List.mem_map_of_mem ht))
          exact passes_whitespace hm _ hu
        simp only [List.forall_mem_cons, List.forall_mem_append] at hts ih ⊢
        exact ⟨hspace f hu hts.2.1, ih.2.2.1 rfl (.inl (Nat.succ_pos depth)),
          hspace g hv hts.2.2.2.1⟩
      have hopen : keyword ≠ .parenOpen := by cases hm <;> decide
      have hpasses := Passes.group ho hc hopen (Passes.forest hinner)
      simpa using hpasses
    · refine Passes.forest fun t ht => ?_
      rcases houtside t.kind (List.mem_map_of_mem ht) with
        ⟨l, hl, hrank⟩ | ⟨a, ha, hopen, hclose, hown⟩
      · exact ih t ht hl (hdepth.imp_right hrank.trans)
      · obtain ⟨u, rfl, hu⟩ := (hts t ht).eq_leaf ha
        rw [tokens_leaf]
        refine .token (hdepth.imp_right fun hrank heq => ?_) ?_ ?_
        · -- The keyword belongs to no other production, and this one binds tighter.
          obtain rfl : a = keyword := Kind.token.inj (hu.symm.trans heq)
          rw [hown m hm] at hrank
          exact Nat.lt_irrefl _ hrank
        · rw [hu]
          exact fun h => hopen (Kind.token.inj h)
        · rw [hu]
          exact fun h => hclose (Kind.token.inj h)

/-! ### Chains of operands -/

/-- A node of a kind, filtered out of trees side by side. -/
theorem filter_isNodeOf_node {t : Tree} {l : NodeKind} (h : t.IsDerivation)
    (ht : t.kind = .node l) (f : Forest) :
    (t :: f).filter (isNodeOf (.node l)) = t :: f.filter (isNodeOf (.node l)) := by
  obtain ⟨ts, rfl, -⟩ := h.eq_node ht
  rw [List.filter_cons, if_pos (by simp [isNodeOf])]

/-- A leaf is no node, so it is filtered out. -/
theorem filter_isNodeOf_leaf (u : Token) (k : Kind) (f : Forest) :
    (leaf u :: f).filter (isNodeOf k) = f.filter (isNodeOf k) := by
  rw [List.filter_cons, isNodeOf, if_neg Bool.false_ne_true]

/-- Optional whitespace holds no node. -/
theorem filter_isNodeOf_of_maybeSpace {f : Forest} (h : MaybeSpace (f.map Tree.kind))
    (hf : ∀ t ∈ f, t.IsDerivation) (k : Kind) : f.filter (isNodeOf k) = [] := by
  rcases eq_of_maybeSpace h hf with rfl | ⟨u, rfl, -⟩
  · rfl
  · exact filter_isNodeOf_leaf u k []

/-- The trees of a chain that is joined by the keyword are its items, and their tokens are what the
keyword cuts the tokens of the chain into. -/
theorem operands?_chain (hm : Joins m keyword) {l : NodeKind} (hl : rank l < rank m) {n : Nat}
    {f : Forest} (hf : ∀ t ∈ f, t.IsDerivation)
    (hkinds : f.map Tree.kind =
      chain (.node l) [.token .whitespace, .token keyword, .token .whitespace] n) :
    operands? keyword (forestTokens f) = some ((f.filter (isNodeOf (.node l))).map tokens) := by
  induction n generalizing f with
  | zero =>
    obtain ⟨t, rfl, ht⟩ := List.map_eq_singleton_iff.1 hkinds
    have hd : t.IsDerivation := hf t (.head _)
    have hpasses : Passes keyword 0 t.tokens := hd.passes hm ht (.inr hl)
    rw [filter_isNodeOf_node hd ht, forestTokens_cons, operands?, forestTokens_nil, hpasses]
    show some [t.tokens ++ []] = some [t.tokens]
    rw [List.append_nil]
  | succ n ih =>
    obtain ⟨t, f, rfl, ht, htail⟩ := List.map_eq_cons_iff.1 hkinds
    rw [List.replicate_succ, List.flatten_cons, List.append_assoc] at htail
    obtain ⟨bs, g, rfl, hbs, hg⟩ := List.map_eq_append_iff.1 htail
    rw [List.forall_mem_cons, List.forall_mem_append] at hf
    obtain ⟨hd, hdbs, hdg⟩ := hf
    obtain ⟨us, rfl, hus⟩ := eq_map_leaf [.whitespace, keyword, .whitespace] hdbs hbs
    obtain ⟨v, us, rfl, hv, hus⟩ := List.map_eq_cons_iff.1 hus
    obtain ⟨k, us, rfl, hk, hus⟩ := List.map_eq_cons_iff.1 hus
    obtain ⟨w, rfl, hw⟩ := List.map_eq_singleton_iff.1 hus
    have hcut := cutOutside_keyword (hd.passes hm ht (.inr hl)) (passes_whitespace hm 0 hv) hk
      (passes_whitespace hm 0 hw) (forestTokens g)
    have htokens : forestTokens (t :: ([v, k, w].map leaf ++ g)) =
        t.tokens ++ v :: k :: w :: forestTokens g := by simp
    have hitems : (t :: ([v, k, w].map leaf ++ g)).filter (isNodeOf (.node l)) =
        t :: g.filter (isNodeOf (.node l)) := by
      rw [filter_isNodeOf_node hd ht]
      rfl
    have hothers : unspaced? (cutOutside keyword 0 (forestTokens g)).1
        (cutOutside keyword 0 (forestTokens g)).2 =
          some ((g.filter (isNodeOf (.node l))).map tokens) := ih hdg hg
    rw [htokens, hitems, operands?, hcut, List.map_cons]
    exact unspaced?_cons hv hw t.tokens hothers

/-! ### Edges of a query -/

/-- A query without whitespace at its edges is its `OrTerm`. -/
theorem edgeless_query {f g : Forest} {r : Tree} (hf : MaybeSpace (f.map Tree.kind))
    (hg : MaybeSpace (g.map Tree.kind)) (hr : r.kind = .node .orTerm)
    (hd : ∀ t ∈ f ++ r :: g, t.IsDerivation) :
    edgeless (forestTokens (f ++ r :: g)) = r.tokens := by
  rw [List.forall_mem_append, List.forall_mem_cons] at hd
  obtain ⟨hdf, hdr, hdg⟩ := hd
  have hfirst : withoutFirstSpace? (forestTokens (r :: g)) = none :=
    withoutFirstSpace?_eq_none (head_orTerm_ne_whitespace hdr hr)
  have hopened : (withoutFirstSpace? (forestTokens (f ++ r :: g))).getD
      (forestTokens (f ++ r :: g)) = forestTokens (r :: g) := by
    rcases eq_of_maybeSpace hf hdf with rfl | ⟨u, rfl, hu⟩
    · rw [List.nil_append, hfirst, Option.getD_none]
    · rw [List.singleton_append, forestTokens_cons, tokens_leaf, List.singleton_append,
        withoutFirstSpace?_cons hu, Option.getD_some]
  rw [edgeless, hopened]
  show (withoutLastSpace? (forestTokens (r :: g))).getD (forestTokens (r :: g)) = r.tokens
  rcases eq_of_maybeSpace hg hdg with rfl | ⟨u, rfl, hu⟩
  · obtain ⟨us, u, a, hus, hu, ha⟩ := hdr.exists_last hr
    have hlast : withoutLastSpace? r.tokens = none := by
      refine withoutLastSpace?_eq_none fun v hv => ?_
      rw [hus, List.getLast?_concat] at hv
      obtain rfl := Option.some.inj hv
      rw [hu]
      rintro hw
      cases hw
      exact absurd ha (by decide)
    rw [forestTokens_singleton, hlast, Option.getD_none]
  · rw [forestTokens_cons, forestTokens_singleton, tokens_leaf, withoutLastSpace?_concat hu,
      Option.getD_some]

end Tree

open BoolQuery.Tree Token

/-- **`AND` binds tighter than `OR`.** In the tree of a line that is recognized, the alternatives of
a query are the pieces of its tokens, whitespace at the edges aside, between the `OR` keywords that
stand outside of all parentheses, and the terms of an `AndTerm` are the pieces of its tokens between
the `AND` keywords that do. -/
theorem recognize_operands {limit : Option Nat} {line : String} {root : Tree}
    (h : recognize limit line = .ok root) {t : Tree} (ht : ReflTransGen HasPart root t) :
    (t.kind = .node .query → ∃ r, t.childNodes (.node .orTerm) = [r] ∧
      operands? .kwOr (edgeless t.tokens) =
        some ((r.childNodes (.node .andTerm)).map tokens)) ∧
    (t.kind = .node .andTerm →
      operands? .kwAnd t.tokens = some ((t.childNodes (.node .term)).map tokens)) := by
  obtain ⟨-, -, hroot⟩ := recognize_eq_ok_iff_standing.1 (recognize_of_limited h)
  obtain ⟨start, after, hstands⟩ := exists_standing_part hroot ht
  have hd : t.IsDerivation := hstands.derivation
  constructor
  · intro hk
    obtain ⟨ts, rfl, hrhs, hts⟩ := hd.eq_node hk
    obtain ⟨f, r, g, rfl, hf, hr, hg⟩ := Tree.exists_query hrhs
    rw [tokens_node, edgeless_query hf hg hr hts]
    have hparts := hts
    rw [List.forall_mem_append, List.forall_mem_cons] at hparts
    obtain ⟨hdf, hdr, hdg⟩ := hparts
    refine ⟨r, ?_, ?_⟩
    · rw [childNodes, children, List.filter_append, filter_isNodeOf_node hdr hr,
        filter_isNodeOf_of_maybeSpace hf hdf, filter_isNodeOf_of_maybeSpace hg hdg,
        List.nil_append]
    · obtain ⟨rs, rfl, hrhs, hrs⟩ := hdr.eq_node hr
      generalize hks : rs.map Tree.kind = ks at hrhs
      cases hrhs with
      | orTerm n => exact operands?_chain .or (by decide) hrs hks
  · intro hk
    obtain ⟨ts, rfl, hrhs, hts⟩ := hd.eq_node hk
    generalize hks : ts.map Tree.kind = ks at hrhs
    cases hrhs with
    | andTerm n => exact operands?_chain .and (by decide) hts hks

/-- A word of one letter. -/
def letter (text : String) (start : Nat) : Tree :=
  .ofWord ⟨TokenKind.word, text, ⟨start, 1⟩⟩

/-- The tree of `a OR (b OR c) AND d`. -/
def mixedQuery : Tree :=
  .node .query [.node .orTerm (.node .andTerm [letter "a" 0] :: (connective .kwOr "OR" 1 ++
    [.node .andTerm (.node .term [.leaf ⟨TokenKind.parenOpen, "(", ⟨5, 1⟩⟩,
        .node .query [.node .orTerm (.node .andTerm [letter "b" 6] :: (connective .kwOr "OR" 7 ++
          [.node .andTerm [letter "c" 11]]))],
        .leaf ⟨TokenKind.parenClose, ")", ⟨12, 1⟩⟩] ::
      (connective .kwAnd "AND" 13 ++ [letter "d" 18]))]))]

/-- The `OR` in the parentheses is none of those that the line is cut at: its alternatives are `a`
and `(b OR c) AND d`. -/
theorem recognize_operands_mixed :
    recognize none "a OR (b OR c) AND d" = .ok mixedQuery ∧
      (operands? .kwOr (edgeless mixedQuery.tokens)).map (List.map joined) =
        some ["a", "(b OR c) AND d"] := by
  have h : recognize none "a OR (b OR c) AND d" = .ok mixedQuery := by decide +kernel
  obtain ⟨r, hr, hoperands⟩ := (recognize_operands h .refl).1 rfl
  have htexts : (mixedQuery.childNodes (.node .orTerm)).map (fun r =>
      ((r.childNodes (.node .andTerm)).map tokens).map joined) =
        [["a", "(b OR c) AND d"]] := by decide +kernel
  rw [hr] at htexts
  rw [hoperands, Option.map_some]
  exact ⟨h, congrArg some (List.singleton_inj.1 htexts)⟩

end BoolQuery
