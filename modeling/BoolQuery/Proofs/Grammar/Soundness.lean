/-
# Answers are derivation trees

Whatever a way of matching answers with, under whatever limit: the kinds of its trees are one
reading of the steps it was asked for, with what is optional left out or put in and what is repeated
written side by side, and each tree is a derivation. A reading of the body of a production is one of
its right-hand sides (`rightHandSide_of_reads`), so nodes are derivations too.
-/

import BoolQuery.Proofs.Grammar.Trees
import BoolQuery.Recognizer.Runs

namespace BoolQuery

namespace Grammar

mutual

/-- The kinds are a reading of the step. -/
def Designator.Reads : Designator → List Kind → Prop
  | .terminal kind, ks => ks = [kind]
  | .rule kind, ks => ks = [kind]
  | .optional ds, ks => ks = [] ∨ AllRead ds ks

/-- The kinds are a reading of the steps in order. -/
def AllRead : List Designator → List Kind → Prop
  | [], ks => ks = []
  | d :: ds, ks => ∃ us vs, ks = us ++ vs ∧ d.Reads us ∧ AllRead ds vs

end

/-- The kinds are so many readings of the steps side by side. -/
def ReadTimes (ds : List Designator) : Nat → List Kind → Prop
  | 0, ks => ks = []
  | n + 1, ks => ∃ us vs, ks = us ++ vs ∧ AllRead ds us ∧ ReadTimes ds n vs

/-- The kinds are a reading of the body of a production. -/
def Body.Reads : Body → List Kind → Prop
  | .choice alternatives, ks => ∃ ds ∈ alternatives, AllRead ds ks
  | .repetition head tail, ks =>
    ∃ us vs n, ks = us ++ vs ∧ AllRead head us ∧ ReadTimes tail n vs

/-- A member of a list of two is one of the two. -/
theorem mem_pair {α : Type} {a b c : α} : a ∈ [b, c] ↔ a = b ∨ a = c := by
  rw [List.mem_cons, List.mem_singleton]

/-! ### Readings of tokens and single steps -/

/-- A single step is read as the step is. -/
theorem allRead_single {d : Designator} {ks : List Kind} : AllRead [d] ks ↔ d.Reads ks := by
  simp only [AllRead]
  constructor
  · rintro ⟨us, vs, rfl, hd, rfl⟩
    rwa [List.append_nil]
  · intro h
    exact ⟨ks, [], (List.append_nil ks).symm, h, rfl⟩

/-- A step with one reading puts it in front. -/
theorem allRead_cons_of_one {d : Designator} {item : Kind} (hd : ∀ us, d.Reads us → us = [item])
    {ds : List Designator} {ks : List Kind} (h : AllRead (d :: ds) ks) :
    ∃ vs, ks = item :: vs ∧ AllRead ds vs := by
  obtain ⟨us, vs, rfl, hus, hvs⟩ := h
  rw [hd us hus]
  exact ⟨vs, rfl, hvs⟩

/-- A token in front is read as its kind. -/
theorem allRead_tok_cons {k : TokenKind} {ds : List Designator} {ks : List Kind}
    (h : AllRead (tok k :: ds) ks) : ∃ vs, ks = .token k :: vs ∧ AllRead ds vs :=
  allRead_cons_of_one (fun _ => id) h

/-- A nonterminal in front is read as its kind. -/
theorem allRead_sub_cons {k : NodeKind} {ds : List Designator} {ks : List Kind}
    (h : AllRead (sub k :: ds) ks) : ∃ vs, ks = .node k :: vs ∧ AllRead ds vs :=
  allRead_cons_of_one (fun _ => id) h

/-- Optional whitespace in front is read as optional whitespace. -/
theorem allRead_space_cons {ds : List Designator} {ks : List Kind}
    (h : AllRead (space? :: ds) ks) : ∃ us vs, ks = us ++ vs ∧ MaybeSpace us ∧ AllRead ds vs := by
  obtain ⟨us, vs, rfl, hus, hvs⟩ := h
  refine ⟨us, vs, rfl, ?_, hvs⟩
  rcases hus with rfl | hus
  · exact .inl rfl
  · exact .inr (allRead_single.1 hus)

/-- An item behind some tokens has one reading. -/
theorem reads_item {d : Designator} {item : Kind} (hd : ∀ us, d.Reads us → us = [item])
    {between : List TokenKind} {ks : List Kind} (h : AllRead (between.map tok ++ [d]) ks) :
    ks = between.map Kind.token ++ [item] := by
  induction between generalizing ks with
  | nil => exact hd ks (allRead_single.1 h)
  | cons b between ih =>
    obtain ⟨vs, rfl, hvs⟩ := allRead_tok_cons h
    rw [ih hvs, List.map_cons, List.cons_append]

/-- A repetition of one item, with tokens between, reads as a chain. -/
theorem reads_chain {d : Designator} {item : Kind} (hd : ∀ us, d.Reads us → us = [item])
    (between : List TokenKind) {ks : List Kind}
    (h : (Body.repetition [d] (between.map tok ++ [d])).Reads ks) :
    ∃ n, ks = chain item (between.map Kind.token) n := by
  obtain ⟨us, vs, n, rfl, hhead, hrest⟩ := h
  refine ⟨n, ?_⟩
  rw [hd us (allRead_single.1 hhead), chain, List.singleton_append]
  congr 1
  induction n generalizing vs with
  | zero => exact hrest
  | succ n ih =>
    obtain ⟨xs, ys, rfl, hx, hy⟩ := hrest
    rw [List.replicate_succ, List.flatten_cons, reads_item hd hx, ih ys hy]

/-- A word or a phrase behind an operator has two readings. -/
theorem reads_marked {op : TokenKind} {ks : List Kind}
    (h : (Body.choice [[tok op, tok .word], [tok op, tok .phrase]]).Reads ks) :
    ks = [.token op, .token .word] ∨ ks = [.token op, .token .phrase] := by
  obtain ⟨ds, hds, h⟩ := h
  rcases mem_pair.1 hds with rfl | rfl
  · obtain ⟨vs, rfl, hvs⟩ := allRead_tok_cons h
    obtain rfl := allRead_single.1 hvs
    exact .inl rfl
  · obtain ⟨vs, rfl, hvs⟩ := allRead_tok_cons h
    obtain rfl := allRead_single.1 hvs
    exact .inr rfl

/-- **The productions as data are the productions as a relation**: whatever the body of a production
can be read as is one of its right-hand sides. -/
theorem rightHandSide_of_reads {k : NodeKind} {ks : List Kind} (h : (Grammar.body k).Reads ks) :
    RightHandSide k ks := by
  cases k with
  | wordSequence =>
    obtain ⟨n, rfl⟩ := reads_chain (fun _ => id) [.whitespace] h
    exact .wordSequence n
  | andTerm =>
    obtain ⟨n, rfl⟩ := reads_chain (fun _ => id) [.whitespace, .kwAnd, .whitespace] h
    exact .andTerm n
  | orTerm =>
    obtain ⟨n, rfl⟩ := reads_chain (fun _ => id) [.whitespace, .kwOr, .whitespace] h
    exact .orTerm n
  | phraseOrWords =>
    obtain ⟨ds, hds, h⟩ := h
    rcases mem_pair.1 hds with rfl | rfl
    · obtain rfl := allRead_single.1 h
      exact .phrase
    · obtain rfl := allRead_single.1 h
      exact .words
  | exclusion =>
    rcases reads_marked h with rfl | rfl
    · exact .excludeWord
    · exact .excludePhrase
  | inclusion =>
    rcases reads_marked h with rfl | rfl
    · exact .includeWord
    · exact .includePhrase
  | prefixTerm =>
    obtain ⟨ds, hds, h⟩ := h
    obtain rfl := List.mem_singleton.1 hds
    obtain ⟨vs, rfl, hvs⟩ := allRead_tok_cons h
    obtain rfl := allRead_single.1 hvs
    exact .prefixTerm
  | term =>
    obtain ⟨ds, hds, h⟩ := h
    simp only [List.mem_cons, List.not_mem_nil, or_false] at hds
    rcases hds with rfl | rfl | rfl | rfl | rfl
    · obtain rfl := allRead_single.1 h
      exact .exclusion
    · obtain rfl := allRead_single.1 h
      exact .inclusion
    · obtain rfl := allRead_single.1 h
      exact .prefixed
    · obtain rfl := allRead_single.1 h
      exact .plain
    · obtain ⟨_, rfl, hgroup⟩ := allRead_tok_cons h
      obtain ⟨us, _, rfl, hu, hquery⟩ := allRead_space_cons hgroup
      obtain ⟨_, rfl, hbehind⟩ := allRead_sub_cons hquery
      obtain ⟨vs, _, rfl, hv, hclose⟩ := allRead_space_cons hbehind
      obtain rfl := allRead_single.1 hclose
      have hrhs := RightHandSide.group hu hv
      rwa [List.append_assoc, List.cons_append, List.cons_append] at hrhs
  | query =>
    obtain ⟨ds, hds, h⟩ := h
    obtain rfl := List.mem_singleton.1 hds
    obtain ⟨us, _, rfl, hu, hterm⟩ := allRead_space_cons h
    obtain ⟨_, rfl, hbehind⟩ := allRead_sub_cons hterm
    obtain ⟨vs, _, rfl, hv, hend⟩ := allRead_space_cons hbehind
    obtain rfl : _ = [] := hend
    rw [List.append_nil]
    exact .query hu hv

/-! ### What the grammar asks for has a width -/

mutual

/-- A step asks for no kind without width. -/
def Designator.isWide : Designator → Bool
  | .terminal kind => !kind.isZeroWidth
  | .rule kind => !kind.isZeroWidth
  | .optional ds => allWide ds

/-- None of the steps asks for a kind without width. -/
def allWide : List Designator → Bool
  | [] => true
  | d :: ds => d.isWide && allWide ds

end

/-- The body of a production asks for no kind without width. -/
def Body.isWide : Body → Bool
  | .choice alternatives => alternatives.all allWide
  | .repetition head tail => allWide head && allWide tail

/-- No production asks for a kind without width. -/
theorem isWide_body (k : NodeKind) : (body k).isWide = true := by cases k <;> decide

mutual

/-- A reading of a step that asks for no kind without width holds none. -/
theorem Designator.isZeroWidth_of_reads :
    ∀ (d : Designator) (ks : List Kind), d.isWide = true → d.Reads ks →
      ∀ x ∈ ks, x.isZeroWidth = false
  | .terminal kind, ks, hwide, h => by
    rw [Designator.Reads] at h
    rw [h, List.forall_mem_singleton]
    simpa [Designator.isWide] using hwide
  | .rule kind, ks, hwide, h => by
    rw [Designator.Reads] at h
    rw [h, List.forall_mem_singleton]
    simpa [Designator.isWide] using hwide
  | .optional ds, ks, hwide, h => by
    rw [Designator.Reads] at h
    rw [Designator.isWide] at hwide
    rcases h with rfl | h
    · exact nofun
    · exact isZeroWidth_of_allRead ds ks hwide h

/-- A reading of steps that ask for no kind without width holds none. -/
theorem isZeroWidth_of_allRead :
    ∀ (ds : List Designator) (ks : List Kind), allWide ds = true → AllRead ds ks →
      ∀ x ∈ ks, x.isZeroWidth = false
  | [], ks, _, h => by
    rw [AllRead] at h
    rw [h]
    exact nofun
  | d :: ds, ks, hwide, h => by
    rw [AllRead] at h
    rw [allWide, Bool.and_eq_true] at hwide
    obtain ⟨us, vs, rfl, hus, hvs⟩ := h
    rw [List.forall_mem_append]
    exact ⟨Designator.isZeroWidth_of_reads d us hwide.1 hus,
      isZeroWidth_of_allRead ds vs hwide.2 hvs⟩

end

end Grammar

/-- Derivation trees whose kinds are as asked. -/
structure Tree.Reading (asked : List Kind → Prop) (f : Forest) : Prop where
  kinds : asked (f.map Tree.kind)
  derivations : ∀ t ∈ f, t.IsDerivation

/-- Readings side by side. -/
theorem Tree.Reading.append {p q r : List Kind → Prop} {f g : Forest} (hf : Reading p f)
    (hg : Reading q g) (h : ∀ us vs, p us → q vs → r (us ++ vs)) : Reading r (f ++ g) := by
  constructor
  · rw [List.map_append]
    exact h _ _ hf.kinds hg.kinds
  · exact List.forall_mem_append.2 ⟨hf.derivations, hg.derivations⟩

namespace RecognizerM

open Recognizer Grammar

/-- A token that is met has the kind that was asked for, and that is the kind of a token. -/
theorem kind_of_terminal {kind : Kind} {s s' : State} {t : Token}
    (h : terminal kind s = .ok (some t) s') : t.kind = kind ∧ ∃ k, kind = .token k := by
  cases kind with
  | token k =>
    rw [terminal_run] at h
    split at h
    · rename_i hk
      cases h
      exact ⟨hk, k, rfl⟩
    · cases h
  | node k => cases h
  | endMark => cases h

/-- A production that is asked for answers with a derivation tree of its kind. -/
def RuleDerives (rule : Kind → RecognizerM (Option Tree)) : Prop :=
  ∀ kind s t s', rule kind s = .ok (some t) s' → t.kind = kind ∧ t.IsDerivation

section

variable {rule : Kind → RecognizerM (Option Tree)} {s s' : State}

mutual

/-- A step answers with a reading of it: by recursion over the step, with `stepsFrom_reads` for what
is optional. -/
theorem step_reads (hr : RuleDerives rule) :
    ∀ d s f s', step rule d s = .ok (some f) s' → Tree.Reading d.Reads f
  | .terminal kind, s, f, s', h => by
    obtain ⟨t, ht, hf⟩ := step_terminal_ok h
    cases t with
    | none => cases hf
    | some t =>
      cases hf
      obtain ⟨hkind, k, rfl⟩ := kind_of_terminal ht
      refine ⟨congrArg (fun k => [k]) hkind, fun u hu => ?_⟩
      rw [List.mem_singleton.1 hu]
      exact .leaf hkind
  | .rule kind, s, f, s', h => by
    obtain ⟨t, ht, hf⟩ := step_rule_ok h
    cases t with
    | none => cases hf
    | some t =>
      cases hf
      obtain ⟨hkind, hd⟩ := hr kind s t s' ht
      refine ⟨congrArg (fun k => [k]) hkind, fun u hu => ?_⟩
      rwa [List.mem_singleton.1 hu]
  | .optional ds, s, f, s', h => by
    obtain ⟨g, hg, hf⟩ := step_optional_ok h
    cases g with
    | none =>
      cases hf
      exact ⟨.inl rfl, nofun⟩
    | some g =>
      cases hf
      obtain ⟨more, rfl, hmore⟩ := stepsFrom_reads hr ds [] s g s' hg
      exact ⟨.inr hmore.kinds, hmore.derivations⟩

/-- Steps in order answer with what was found before and a reading of them. -/
theorem stepsFrom_reads (hr : RuleDerives rule) :
    ∀ ds done s f s', stepsFrom rule done ds s = .ok (some f) s' →
      ∃ g, f = done ++ g ∧ Tree.Reading (AllRead ds) g
  | [], done, s, f, s', h => by
    obtain ⟨hf, -⟩ := stepsFrom_nil_ok h
    cases hf
    exact ⟨[], (List.append_nil done).symm, rfl, nofun⟩
  | d :: ds, done, s, f, s', h => by
    rcases stepsFrom_cons_ok h with ⟨more, u, hf, h⟩ | ⟨u, -, -, hnone⟩
    · have hmore := step_reads hr d s more u hf
      obtain ⟨g, rfl, hg⟩ := stepsFrom_reads hr ds (done ++ more) u f s' h
      refine ⟨more ++ g, List.append_assoc done more g, hmore.append hg ?_⟩
      intro us vs hus hvs
      exact ⟨us, vs, rfl, hus, hvs⟩
    · cases hnone

end

/-- A sequence answers with a reading of its steps. -/
theorem sequence_reads (hr : RuleDerives rule) {ds : List Designator} {f : Forest}
    (h : sequence rule ds s = .ok (some f) s') : Tree.Reading (AllRead ds) f := by
  obtain ⟨g, rfl, hg⟩ := stepsFrom_reads hr ds [] s f s' h
  exact hg

/-- A choice answers with a reading of one of its alternatives. -/
theorem choice_reads (hr : RuleDerives rule) {alternatives : List (List Designator)}
    {f : Forest} (h : choice rule alternatives s = .ok (some f) s') :
    Tree.Reading (Body.choice alternatives).Reads f := by
  induction alternatives generalizing s with
  | nil => exact absurd (choice_nil_ok h).1 nofun
  | cons ds rest ih =>
    rcases choice_cons_ok h with ⟨g, hg, hf⟩ | ⟨u, -, h⟩
    · cases hf
      have hread := sequence_reads hr hg
      exact ⟨⟨ds, .head _, hread.kinds⟩, hread.derivations⟩
    · obtain ⟨⟨es, hes, hread⟩, hd⟩ := ih h
      exact ⟨⟨es, .tail _ hes, hread⟩, hd⟩

/-- The tails of a repetition are so many readings of the tail. -/
theorem tails_read (hr : RuleDerives rule) {tail : List Designator} {bound : Nat} {f : Forest}
    (h : tails rule tail bound s = .ok f s') : ∃ n, Tree.Reading (ReadTimes tail n) f := by
  induction bound generalizing s f with
  | zero => cases h
  | succ bound ih =>
    rcases tails_succ_ok h with ⟨-, rfl, -⟩ | ⟨-, -, rfl⟩ | ⟨more, u, g, -, hf, hg, rfl⟩
    · exact ⟨0, rfl, nofun⟩
    · exact ⟨0, rfl, nofun⟩
    · have hmore := sequence_reads hr hf
      obtain ⟨n, hread⟩ := ih hg
      refine ⟨n + 1, hmore.append hread ?_⟩
      intro us vs hus hvs
      exact ⟨us, vs, rfl, hus, hvs⟩

/-- A repetition answers with a reading of its head and so many of its tail. -/
theorem repetition_reads (hr : RuleDerives rule) {head tail : List Designator} {f : Forest}
    (h : repetition rule head tail s = .ok (some f) s') :
    Tree.Reading (Body.repetition head tail).Reads f := by
  rcases repetition_ok h with ⟨-, hnone⟩ | ⟨first, u, g, hf, hg, hsome⟩
  · cases hnone
  · cases hsome
    have hfirst := sequence_reads hr hf
    obtain ⟨n, hread⟩ := tails_read hr hg
    refine hfirst.append hread ?_
    intro us vs hus hvs
    exact ⟨us, vs, n, rfl, hus, hvs⟩

/-- The body of a production answers with a reading of it. -/
theorem body_reads (hr : RuleDerives rule) {b : Body} {f : Forest}
    (h : body rule b s = .ok (some f) s') : Tree.Reading b.Reads f := by
  cases b with
  | choice alternatives => exact choice_reads hr h
  | repetition head tail => exact repetition_reads hr h

end

/-- Productions within a bound answer with derivation trees: by induction on the bound. -/
theorem ruleWithin_derives (bound : Nat) : RuleDerives (ruleWithin bound) := by
  induction bound with
  | zero =>
    intro kind s t s' h
    cases h
  | succ bound ih =>
    intro kind s t s' h
    rcases ruleWithin_succ_ok h with ⟨-, hnone⟩ | ⟨k, f, u, rfl, -, hf, ht, -⟩
    · cases hnone
    · cases f with
      | none => cases ht
      | some f =>
        cases ht
        have hread := body_reads ih hf
        exact ⟨rfl, .node (rightHandSide_of_reads hread.kinds) hread.derivations⟩

/-- **A production answers with a derivation tree** of its kind, whatever the limit. -/
theorem rule_derives : RuleDerives rule := by
  intro kind s t s' h
  obtain ⟨_, _, hg, h⟩ := bind_ok h
  cases hg
  exact ruleWithin_derives _ kind s t s' h

end RecognizerM
end BoolQuery
