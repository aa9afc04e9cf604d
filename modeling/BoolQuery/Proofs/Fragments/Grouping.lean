/-
# Queries in parentheses

Queries are put together by writing each of them in parentheses. What was a query of its own is then
the query of a group, since its last token is the same in front of a parenthesis as at the end of a
line; only whitespace in front of it goes to the group.

| line | tree |
| --- | --- |
| `(p)` | the group of `p` |
| `(p) AND (q)` | one `AndTerm` over both groups |
| `(p) OR (q)` | one `OrTerm` over an `AndTerm` for each group |

Without parentheses this need not hold: the last word of `p` may become a keyword, or may go on into
what follows.
-/

import BoolQuery.Proofs.Fragments.Standing

namespace BoolQuery

open Grammar Lexicon

/-- The token of a text that is written at byte `start`. -/
def Token.written (k : TokenKind) (text : String) (start : Nat) : Token :=
  ⟨k, text, ⟨start, Text.bytes text.toList⟩⟩

namespace Tree

/-- The group of a query from byte `start` on. Whitespace in front of the query is a part of the
group. -/
def grouped (start : Nat) (query : Tree) : Tree :=
  let parts := query.children.map (moved (start + 1))
  let space := parts.takeWhile fun t => t.kind == .token .whitespace
  let others := parts.dropWhile fun t => t.kind == .token .whitespace
  .node .term (.leaf (.written .parenOpen "(" start) ::
    (space ++ [.node .query others, .leaf (.written .parenClose ")" (start + 1 + query.extent))]))

/-- A connective and the whitespace around it, from byte `start` on. -/
def connective (k : TokenKind) (word : String) (start : Nat) : Forest :=
  [.leaf (.written .whitespace " " start), .leaf (.written k word (start + 1)),
    .leaf (.written .whitespace " " (start + 1 + Text.bytes word.toList))]

end Tree

open BoolQuery.Tree

/-! ### Written tokens -/

section

variable {start : Nat} {after : List Char}

/-- A written token that stands before a text is a forest standing there. -/
theorem standing_written {k : TokenKind} {text : String}
    (h : (Token.written k text start).StandsBefore after) :
    Standing start after [.leaf (.written k text start)] := standing_leaf rfl rfl h

/-- A written token is as wide as its text. -/
@[simp] theorem extent_written (k : TokenKind) (text : String) (start : Nat) :
    (Tree.leaf (.written k text start)).extent = Text.bytes text.toList := rfl

@[simp] theorem toList_written (k : TokenKind) (text : String) (start : Nat) :
    (Token.written k text start).text.toList = text.toList := rfl

theorem toList_parenOpen : "(".toList = ['('] := by decide

theorem toList_parenClose : ")".toList = [')'] := by decide

theorem toList_space : " ".toList = [' '] := by decide

/-- An opening parenthesis is one byte. -/
theorem bytes_parenOpen : Text.bytes "(".toList = 1 := by decide

/-- A closing parenthesis is one byte. -/
theorem bytes_parenClose : Text.bytes ")".toList = 1 := by decide

/-- A space is one byte. -/
theorem bytes_space : Text.bytes " ".toList = 1 := by decide

/-- An opening parenthesis is scanned before any text. -/
theorem parenOpen_standsBefore (start : Nat) (after : List Char) :
    (Token.written .parenOpen "(" start).StandsBefore after :=
  Token.StandsBefore.iff_rule.2
    ⟨(.parenOpen, .symbol '('), by simp [rules], toList_parenOpen, trivial, rfl⟩

/-- A closing parenthesis is scanned before any text. -/
theorem parenClose_standsBefore (start : Nat) (after : List Char) :
    (Token.written .parenClose ")" start).StandsBefore after :=
  Token.StandsBefore.iff_rule.2
    ⟨(.parenClose, .symbol ')'), by simp [rules], toList_parenClose, trivial, rfl⟩

/-! ### Groups -/

/-- What stands at the end of a line stands also in front of a closing parenthesis. -/
theorem Standing.before_parenClose {f : Forest} (h : Standing start [] f) (after : List Char) :
    Standing start (')' :: after) f :=
  h.change fun _ _ hlast => hlast.before_sign (by decide) (by decide) after

/-- Whitespace and what follows it, taken apart. -/
theorem takeWhile_whitespace {f g : Forest} {r : Tree} (hf : MaybeSpace (f.map Tree.kind))
    (hr : r.kind = .node .orTerm) :
    (f ++ r :: g).takeWhile (fun t => t.kind == .token .whitespace) = f ∧
      (f ++ r :: g).dropWhile (fun t => t.kind == .token .whitespace) = r :: g := by
  have hspace : ∀ t ∈ f, (t.kind == .token .whitespace) = true := by
    intro t ht
    rw [hf.eq_of_mem (List.mem_map_of_mem ht), beq_self_eq_true]
  rw [List.takeWhile_append_of_pos hspace, List.dropWhile_append_of_pos hspace]
  simp [hr]

/-- The parts of a query that stand between parentheses stand there as a group. -/
theorem standing_group {f g : Forest} {r : Tree} (hf : MaybeSpace (f.map Tree.kind))
    (hr : r.kind = .node .orTerm) (hg : MaybeSpace (g.map Tree.kind))
    (h : Standing (start + 1) (')' :: after) (f ++ r :: g)) :
    Standing start after [.node .term (.leaf (.written .parenOpen "(" start) ::
      (f ++ [.node .query (r :: g),
        .leaf (.written .parenClose ")" (start + 1 + forestExtent (f ++ r :: g)))]))] := by
  obtain ⟨hspace, hothers⟩ := standing_append.1 h
  have hquery : Standing (start + 1) (')' :: after) (f ++ [.node .query (r :: g)]) := by
    refine standing_append.2 ⟨?_, hothers.node ?_ nofun⟩
    · rwa [forestTokens_singleton, tokens_node]
    · rw [List.map_cons, hr]
      exact .query (.inl rfl) hg
  have hbytes : Text.bytes (Token.joined (forestTokens (f ++ [.node .query (r :: g)]))).toList =
      forestExtent (f ++ r :: g) := by
    rw [forestExtent_eq, forestTokens_append, forestTokens_append, forestTokens_singleton,
      tokens_node]
  have hparts : Standing start after (.leaf (.written .parenOpen "(" start) ::
      ((f ++ [.node .query (r :: g)]) ++
        [.leaf (.written .parenClose ")" (start + 1 + forestExtent (f ++ r :: g)))])) := by
    refine standing_cons.2 ⟨standing_written (parenOpen_standsBefore start _), ?_⟩
    rw [extent_written, bytes_parenOpen]
    refine standing_append.2 ⟨?_, ?_⟩
    · rw [forestTokens_singleton, tokens_leaf, Token.toList_joined, List.flatMap_singleton,
        toList_written, toList_parenClose]
      exact hquery
    · rw [hbytes]
      exact standing_written (parenClose_standsBefore _ after)
  rw [List.append_assoc, List.singleton_append] at hparts
  refine hparts.node ?_ fun _ =>
    groupSettled_of_parts rfl hf (hothers.derivations r (.head _)) hr rfl
  have hrhs := RightHandSide.group hf (.inl rfl)
  simpa [Tree.kind, Token.written] using hrhs

/-- **A query in parentheses stands as a group** wherever it is put. -/
theorem standing_grouped {root : Tree} (hk : root.kind = .node .query)
    (h : Standing 0 [] [root]) (start : Nat) (after : List Char) :
    Standing start after [root.grouped start] := by
  obtain ⟨ts, rfl, hrhs, -⟩ := h.derivation.eq_node hk
  obtain ⟨f, r, g, rfl, hf, hr, hg⟩ := Tree.exists_query hrhs
  rw [← map_kind_moved (start + 1)] at hf hg
  rw [← kind_moved (start + 1)] at hr
  have hparts := (h.parts.before_parenClose after).moved (start + 1)
  rw [List.map_append, List.map_cons] at hparts
  have hextent : forestExtent (f.map (Tree.moved (start + 1)) ++
      r.moved (start + 1) :: g.map (Tree.moved (start + 1))) =
        (Tree.node .query (f ++ r :: g)).extent := by
    rw [← List.map_cons, ← List.map_append, forestExtent_eq, forestTokens_moved,
      (Token.keeps_moved (start + 1)).joined, extent_eq]
    rfl
  obtain ⟨hspace, hothers⟩ := takeWhile_whitespace hf hr (g := g.map (Tree.moved (start + 1)))
  simp only [grouped, children, List.map_append, List.map_cons, hspace, hothers, ← hextent]
  exact standing_group hf hr hg hparts

/-- The tokens of a group are the opening parenthesis, the tokens of the query moved by one byte,
and the closing parenthesis. -/
theorem tokens_grouped (start : Nat) (k : NodeKind) (ts : Forest) :
    ((Tree.node k ts).grouped start).tokens = .written .parenOpen "(" start ::
      ((forestTokens ts).map (Token.moved (start + 1)) ++
        [.written .parenClose ")" (start + 1 + (Tree.node k ts).extent)]) := by
  have hparts := forestTokens_moved (start + 1) ts
  rw [← List.takeWhile_append_dropWhile (p := fun t : Tree => t.kind == .token .whitespace)
    (l := ts.map (Tree.moved (start + 1))), forestTokens_append] at hparts
  rw [← hparts]
  simp [grouped, children]

/-- The text of a group is that of the query in parentheses. -/
theorem text_grouped (start : Nat) (k : NodeKind) (ts : Forest) :
    ((Tree.node k ts).grouped start).text = "(" ++ (Tree.node k ts).text ++ ")" := by
  have hjoined := (Token.keeps_moved (start + 1)).joined (forestTokens ts)
  rw [← String.toList_inj, Token.toList_joined] at hjoined
  rw [text, tokens_grouped, ← String.toList_inj, Token.toList_joined]
  simp [Token.written, text, hjoined]

/-- A group is two bytes wider than its query. -/
theorem extent_grouped (start : Nat) (k : NodeKind) (ts : Forest) :
    ((Tree.node k ts).grouped start).extent = (Tree.node k ts).extent + 2 := by
  rw [extent_eq, extent_eq, text_grouped, String.toList_append, String.toList_append,
    Text.bytes_append, Text.bytes_append, bytes_parenOpen, bytes_parenClose]
  omega

end

/-! ### Connectives -/

/-- The word is a keyword of the kind in front of whitespace, and ends whitespace in front of it. -/
structure IsConnective (k : TokenKind) (word : String) : Prop where
  keyword : (Token.written k word 0).StandsBefore [' ']
  space : (Token.written .whitespace " " 0).StandsBefore word.toList

/-- `AND` is a connective. -/
theorem isConnective_and : IsConnective .kwAnd "AND" :=
  ⟨⟨by decide, .kwAnd, rfl, by decide +kernel⟩, ⟨by decide, .whitespace, rfl, by decide +kernel⟩⟩

/-- `OR` is a connective. -/
theorem isConnective_or : IsConnective .kwOr "OR" :=
  ⟨⟨by decide, .kwOr, rfl, by decide +kernel⟩, ⟨by decide, .whitespace, rfl, by decide +kernel⟩⟩

/-- A connective is written with a space on either side. -/
theorem toList_connective (k : TokenKind) (word : String) (start : Nat) :
    (Token.joined (forestTokens (connective k word start))).toList =
      " ".toList ++ (word.toList ++ " ".toList) := by
  simp [connective]

/-- A connective is two bytes wider than its word. -/
theorem bytes_connective (k : TokenKind) (word : String) (start : Nat) :
    Text.bytes (Token.joined (forestTokens (connective k word start))).toList =
      Text.bytes word.toList + 2 := by
  rw [toList_connective, Text.bytes_append, Text.bytes_append, bytes_space]
  omega

section

variable {k : TokenKind} {word : String} {start : Nat} {after : List Char}

/-- A connective stands in front of a parenthesis. -/
theorem standing_connective (hword : IsConnective k word) (hafter : after.head? = some '(') :
    Standing start after (connective k word start) := by
  have hopen : (Token.written .whitespace " " 0).StandsBefore ['('] :=
    ⟨by decide, .whitespace, rfl, by decide +kernel⟩
  obtain ⟨c, cs, hc⟩ := List.exists_cons_of_ne_nil hword.keyword.text_ne_nil
  rw [toList_written] at hc
  refine standing_cons.2 ⟨standing_written (hword.space.congr ?_), ?_⟩
  · simp [hc]
  rw [extent_written, bytes_space]
  refine standing_cons.2 ⟨standing_written (hword.keyword.congr ?_), ?_⟩
  · simp [toList_space]
  rw [extent_written]
  exact standing_written (hopen.congr (by rw [hafter, List.head?_cons]))

/-- Two trees stand on both sides of a connective, if the second one begins with a parenthesis. -/
theorem standing_connected (hword : IsConnective k word) {t u : Tree} {n m : Nat}
    (hn : t.extent = n) (hm : n + (Text.bytes word.toList + 2) = m)
    (ht : ∀ after, Standing 0 after [t]) (hu : Standing m [] [u])
    (hhead : u.text.toList.head? = some '(') :
    Standing 0 [] (t :: (connective k word n ++ [u])) := by
  subst hn hm
  refine standing_cons.2 ⟨ht _, standing_append.2 ⟨?_, ?_⟩⟩
  · rw [Nat.zero_add, forestTokens_singleton, List.append_nil]
    exact standing_connective hword hhead
  · rwa [Nat.zero_add, bytes_connective]

end

/-- The text of two trees joined by a connective is that of the one, the spaced word, and that of
the other. -/
theorem text_connected (k : TokenKind) (word : String) (start : Nat) (t u : Tree) :
    Token.joined (forestTokens (t :: (connective k word start ++ [u]))) =
      t.text ++ (" " ++ word ++ " ") ++ u.text := by
  have hconnective := toList_connective k word start
  rw [Token.toList_joined] at hconnective
  rw [← String.toList_inj]
  simp [text, hconnective]

/-- An `OrTerm` that stands at the first byte of a line and takes all of it makes the line a
query. -/
theorem recognize_of_orTerm {ts : Forest} {line : String} (h : Standing 0 [] ts)
    (hrhs : RightHandSide .orTerm (ts.map Tree.kind))
    (htext : Token.joined (forestTokens ts) = line) :
    recognize none line = .ok (.node .query [.node .orTerm ts]) := by
  refine recognize_eq_ok_iff_standing.2 ⟨rfl, ?_, (h.node hrhs nofun).node ?_ nofun⟩
  · rw [text_node_singleton, text, tokens_node, htext]
  · exact .query (.inl rfl) (.inl rfl)

/-- **Queries are put together in parentheses.** If two texts are recognized, then so is the first
one in parentheses, and so are both in parentheses with `AND` or `OR` between them. The tree is what
the two groups are put into: both of them terms of one `AndTerm`, or each of them the term of an
`AndTerm` of one `OrTerm`. In each group the query is the tree of the text alone, moved to its
place, except that whitespace in front of it is a part of the group. -/
theorem recognize_grouped {p q : String} {P Q : Tree} (hp : recognize none p = .ok P)
    (hq : recognize none q = .ok Q) :
    recognize none ("(" ++ p ++ ")") =
      .ok (.node .query [.node .orTerm [.node .andTerm [P.grouped 0]]]) ∧
    recognize none ("(" ++ p ++ ") AND (" ++ q ++ ")") =
      .ok (.node .query [.node .orTerm [.node .andTerm
        (P.grouped 0 :: (connective .kwAnd "AND" (P.extent + 2) ++ [Q.grouped (P.extent + 7)]))]]) ∧
    recognize none ("(" ++ p ++ ") OR (" ++ q ++ ")") =
      .ok (.node .query [.node .orTerm
        (.node .andTerm [P.grouped 0] ::
          (connective .kwOr "OR" (P.extent + 2) ++ [.node .andTerm [Q.grouped (P.extent + 6)]]))]) := by
  obtain ⟨hkindP, rfl, hstandsP⟩ := recognize_eq_ok_iff_standing.1 hp
  obtain ⟨hkindQ, rfl, hstandsQ⟩ := recognize_eq_ok_iff_standing.1 hq
  have hP := standing_grouped hkindP hstandsP 0
  have hQ := fun start => standing_grouped hkindQ hstandsQ start []
  obtain ⟨ps, rfl, -⟩ := hstandsP.derivation.eq_node hkindP
  obtain ⟨qs, rfl, -⟩ := hstandsQ.derivation.eq_node hkindQ
  have hhead : ∀ start, ((Tree.node .query qs).grouped start).text.toList.head? = some '(' := by
    intro start
    rw [text_grouped, String.toList_append, String.toList_append, toList_parenOpen]
    rfl
  refine ⟨recognize_of_orTerm ((hP []).node (.andTerm 0) nofun) (.orTerm 0) ?_,
    recognize_of_orTerm (.node ?_ (.andTerm 1) nofun) (.orTerm 0) ?_,
    recognize_of_orTerm ?_ (.orTerm 1) ?_⟩
  · rw [forestTokens_singleton, ← text, text_node_singleton, text_grouped]
  · exact standing_connected isConnective_and (extent_grouped ..) rfl hP (hQ _) (hhead _)
  · rw [forestTokens_singleton, tokens_node, text_connected, text_grouped, text_grouped,
      ← String.toList_inj]
    simp
  · refine standing_connected isConnective_or ?_ rfl
      (fun after => (hP after).node (.andTerm 0) nofun) ((hQ _).node (.andTerm 0) nofun) ?_
    · rw [extent_node_singleton, extent_grouped]
    · rw [text_node_singleton, hhead]
  · rw [text_connected, text_node_singleton, text_node_singleton, text_grouped, text_grouped,
      ← String.toList_inj]
    simp

/-- The tree of ` a AND`, the last word of which is no keyword, as nothing follows it. -/
def spacedWords : Tree :=
  .node .query [.leaf ⟨TokenKind.whitespace, " ", ⟨0, 1⟩⟩, .node .orTerm [.node .andTerm [.node .term
    [.node .phraseOrWords [.node .wordSequence [.leaf ⟨TokenKind.word, "a", ⟨1, 1⟩⟩,
      .leaf ⟨TokenKind.whitespace, " ", ⟨2, 1⟩⟩, .leaf ⟨TokenKind.word, "AND", ⟨3, 3⟩⟩]]]]]]

/-- The tree of `b OR c`. -/
def plainChoice : Tree :=
  .node .query [.node .orTerm [.node .andTerm [.ofWord ⟨TokenKind.word, "b", ⟨0, 1⟩⟩],
    .leaf ⟨TokenKind.whitespace, " ", ⟨1, 1⟩⟩, .leaf ⟨TokenKind.kwOr, "OR", ⟨2, 2⟩⟩,
    .leaf ⟨TokenKind.whitespace, " ", ⟨4, 1⟩⟩,
    .node .andTerm [.ofWord ⟨TokenKind.word, "c", ⟨5, 1⟩⟩]]]

/-- In parentheses the space in front of ` a AND` is the group's, and `AND` is a word still. -/
theorem recognize_grouped_spacedWords :
    recognize none " a AND" = .ok spacedWords ∧ recognize none "b OR c" = .ok plainChoice ∧
      recognize none "( a AND) AND (b OR c)" = .ok (.node .query [.node .orTerm [.node .andTerm
        (spacedWords.grouped 0 :: (connective .kwAnd "AND" 8 ++ [plainChoice.grouped 13]))]]) := by
  have hp : recognize none " a AND" = .ok spacedWords := by decide +kernel
  have hq : recognize none "b OR c" = .ok plainChoice := by decide +kernel
  have hline : "( a AND) AND (b OR c)" = "(" ++ " a AND" ++ ") AND (" ++ "b OR c" ++ ")" := by decide
  refine ⟨hp, hq, ?_⟩
  rw [hline, (recognize_grouped hp hq).2.1]
  rfl

end BoolQuery
