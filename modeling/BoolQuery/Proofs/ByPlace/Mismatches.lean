/-
# What the mismatches of a course tell

A course looks at tokens from its start on. What it passed without a mismatch is the beginning of
something that its goal derives (`Course.passes`): no token is ever asked for behind a place where
the goal is lost already. And a course that misses notes a mismatch at its end, so what it depends
on are the tokens up to its furthest mismatch. Over other tokens behind that it is the same course
(`Course.of_agree`).
-/

import BoolQuery.Proofs.ByPlace.Course
import BoolQuery.Proofs.Calls
import BoolQuery.Proofs.Grammar.Soundness
import BoolQuery.Proofs.Lexing.Places

namespace BoolQuery

open Grammar

namespace Grammar

/-! ### Every step derives something -/

mutual

/-- Every well-formed step has a reading from which token kinds are derived. -/
theorem exists_derives_step :
    ∀ d : Designator, d.WellFormed → ∃ ks w, d.Reads ks ∧ Derives ks w
  | .terminal kind, h => by
    cases kind with
    | token k => exact ⟨_, [k], rfl, .token .nil⟩
    | node _ | endMark => cases h
  | .rule kind, h => by
    cases kind with
    | node k => exact ⟨_, briefest k, rfl, derives_briefest k⟩
    | token _ | endMark => cases h
  | .optional _, _ => ⟨[], [], .inl rfl, .nil⟩

/-- Every well-formed list of steps has a reading, and that reading a derivation. -/
theorem exists_derives_steps :
    ∀ ds : List Designator, AllWellFormed ds → ∃ ks w, AllRead ds ks ∧ Derives ks w
  | [], _ => ⟨[], [], rfl, .nil⟩
  | d :: ds, h => by
    obtain ⟨us, u, hus, hu⟩ := exists_derives_step d h.1
    obtain ⟨vs, v, hvs, hv⟩ := exists_derives_steps ds h.2
    exact ⟨us ++ vs, u ++ v, ⟨us, vs, rfl, hus, hvs⟩, hu.append hv⟩

end

end Grammar

namespace ByPlace

/-! ### What a goal derives -/

namespace Goal

/-- The goal asks for tokens and productions by the right kinds. -/
def WellFormed : Goal → Prop
  | step d => d.WellFormed
  | steps _ ds => AllWellFormed ds
  | choice alternatives => ∀ ds ∈ alternatives, AllWellFormed ds
  | tails tail => AllWellFormed tail
  | repetition head tail => AllWellFormed head ∧ AllWellFormed tail
  | rule _ => True

/-- The kinds are a reading of the goal. -/
def Reads : Goal → List Kind → Prop
  | step d, ks => d.Reads ks
  | steps _ ds, ks => AllRead ds ks
  | choice alternatives, ks => (Body.choice alternatives).Reads ks
  | tails tail, ks => ∃ n, ReadTimes tail n ks
  | repetition head tail, ks => (Body.repetition head tail).Reads ks
  | rule k, ks => ks = [.node k]

/-- The token kinds are derived from a reading of the goal. -/
def Derives (g : Goal) (w : List TokenKind) : Prop := ∃ ks, g.Reads ks ∧ Grammar.Derives ks w

variable {u w : List TokenKind}

/-- What the first step derives goes in front of what the others do. -/
theorem derives_cons {done more : Forest} {d : Designator} {ds : List Designator}
    (hd : (step d).Derives u) (hds : (steps more ds).Derives w) :
    (steps done (d :: ds)).Derives (u ++ w) := by
  obtain ⟨us, hus, hu⟩ := hd
  obtain ⟨vs, hvs, hw⟩ := hds
  exact ⟨us ++ vs, ⟨us, vs, rfl, hus, hvs⟩, hu.append hw⟩

/-- Tails derive nothing where there are none. -/
theorem derives_tails_nil {tail : List Designator} : (tails tail).Derives [] :=
  ⟨[], ⟨0, rfl⟩, .nil⟩

/-- One tail goes in front of the others. -/
theorem derives_tails_cons {tail : List Designator} (h : (steps [] tail).Derives u)
    (hrest : (tails tail).Derives w) : (tails tail).Derives (u ++ w) := by
  obtain ⟨us, hus, hu⟩ := h
  obtain ⟨vs, ⟨n, hvs⟩, hw⟩ := hrest
  exact ⟨us ++ vs, ⟨n + 1, us, vs, rfl, hus, hvs⟩, hu.append hw⟩

/-- The head of a repetition goes in front of its tails. -/
theorem derives_repetition {head tail : List Designator} (h : (steps [] head).Derives u)
    (hrest : (tails tail).Derives w) : (repetition head tail).Derives (u ++ w) := by
  obtain ⟨us, hus, hu⟩ := h
  obtain ⟨vs, ⟨n, hvs⟩, hw⟩ := hrest
  exact ⟨us ++ vs, ⟨us, vs, n, rfl, hus, hvs⟩, hu.append hw⟩

/-- What may be missing derives what it does where it is there. -/
theorem derives_optional {ds : List Designator} (h : (steps [] ds).Derives w) :
    (step (.optional ds)).Derives w := by
  obtain ⟨ks, hks, hw⟩ := h
  exact ⟨ks, .inr hks, hw⟩

/-- A choice derives what each of its alternatives does. -/
theorem derives_choice {alternatives : List (List Designator)} {ds : List Designator}
    (hds : ds ∈ alternatives) (h : (steps [] ds).Derives w) : (choice alternatives).Derives w := by
  obtain ⟨ks, hks, hw⟩ := h
  exact ⟨ks, ⟨ds, hds, hks⟩, hw⟩

/-- A choice derives what it does without its first alternative. -/
theorem derives_choice_cons {ds : List Designator} {rest : List (List Designator)}
    (h : (choice rest).Derives w) : (choice (ds :: rest)).Derives w := by
  obtain ⟨ks, ⟨es, hes, hks⟩, hw⟩ := h
  exact ⟨ks, ⟨es, .tail _ hes, hks⟩, hw⟩

/-- A production derives what its right-hand side does. -/
theorem derives_rule {k : NodeKind} (h : (ofBody (Grammar.body k)).Derives w) :
    (rule k).Derives w := by
  obtain ⟨ks, hks, hw⟩ := h
  refine ⟨[.node k], rfl, .single (rightHandSide_of_reads ?_) hw⟩
  cases hb : Grammar.body k with
  | choice alternatives =>
    rw [hb] at hks
    exact hks
  | repetition head tail =>
    rw [hb] at hks
    exact hks

/-- The right-hand sides of the grammar are well-formed. -/
theorem wellFormed_ofBody (k : NodeKind) : (ofBody (Grammar.body k)).WellFormed := by
  cases k <;>
    simp [Grammar.body, ofBody, WellFormed, AllWellFormed, Designator.WellFormed, Kind.isToken,
      Kind.isNode]

end Goal

/-! ### Passed tokens -/

/-- Tokens of these kinds stand at the places from `i` on. -/
def KindsAt (place : Nat → Token) (i : Nat) (w : List TokenKind) : Prop :=
  ∃ ts, StandAt place i ts ∧ ts.map Token.kind = w.map Kind.token

variable {place : Nat → Token} {i j l : Nat} {g h k : Goal}

/-- No tokens stand at every place. -/
theorem kindsAt_nil : KindsAt place i [] := ⟨[], standAt_nil, rfl⟩

/-- Tokens in a row are told by their kinds piece by piece. -/
theorem KindsAt.append {u w : List TokenKind} (hu : KindsAt place i u)
    (hw : KindsAt place (i + u.length) w) : KindsAt place i (u ++ w) := by
  obtain ⟨ts, hts, htu⟩ := hu
  obtain ⟨us, hus, huw⟩ := hw
  have hlen : ts.length = u.length := by
    rw [← List.length_map Token.kind, htu, List.length_map]
  rw [← hlen] at hus
  exact ⟨ts ++ us, standAt_append.2 ⟨hts, hus⟩, by rw [List.map_append, htu, huw, List.map_append]⟩

/-- The tokens from place `i` up to place `j` are what the goal derives. -/
def Spans (place : Nat → Token) (g : Goal) (i j : Nat) : Prop :=
  ∃ w, g.Derives w ∧ KindsAt place i w ∧ j = i + w.length

/-- The tokens from place `i` up to place `j` begin what the goal derives. -/
def Begins (place : Nat → Token) (g : Goal) (i j : Nat) : Prop :=
  ∃ w v, g.Derives (w ++ v) ∧ KindsAt place i w ∧ j = i + w.length

/-- Tokens that one goal derives are derived by every goal that derives as much. -/
theorem Spans.imp (hs : Spans place g i j) (hgh : ∀ w, g.Derives w → h.Derives w) :
    Spans place h i j := by
  obtain ⟨w, hw, hrest⟩ := hs
  exact ⟨w, hgh w hw, hrest⟩

/-- Tokens that begin one goal begin every goal that derives as much. -/
theorem Begins.imp (hs : Begins place g i j) (hgh : ∀ w, g.Derives w → h.Derives w) :
    Begins place h i j := by
  obtain ⟨w, v, hw, hrest⟩ := hs
  exact ⟨w, v, hgh _ hw, hrest⟩

/-- What two goals derive one behind the other is derived by a goal for both. -/
theorem Spans.append (hg : Spans place g i j) (hh : Spans place h j l)
    (hk : ∀ u w, g.Derives u → h.Derives w → k.Derives (u ++ w)) : Spans place k i l := by
  obtain ⟨u, hu, hiu, rfl⟩ := hg
  obtain ⟨w, hw, hjw, rfl⟩ := hh
  exact ⟨u ++ w, hk u w hu hw, hiu.append hjw, by rw [List.length_append, Nat.add_assoc]⟩

/-- Behind what one goal derives another goal is begun. -/
theorem Spans.begins (hg : Spans place g i j) (hh : Begins place h j l)
    (hk : ∀ u w, g.Derives u → h.Derives w → k.Derives (u ++ w)) : Begins place k i l := by
  obtain ⟨u, hu, hiu, rfl⟩ := hg
  obtain ⟨w, v, hw, hjw, rfl⟩ := hh
  refine ⟨u ++ w, v, ?_, hiu.append hjw, by rw [List.length_append, Nat.add_assoc]⟩
  rw [List.append_assoc]
  exact hk u _ hu hw

/-- What begins a goal begins all that goes on with another one. -/
theorem Begins.extend (hg : Begins place g i j) (hh : ∃ w, h.Derives w)
    (hk : ∀ u w, g.Derives u → h.Derives w → k.Derives (u ++ w)) : Begins place k i j := by
  obtain ⟨u, v, hu, hrest⟩ := hg
  obtain ⟨w, hw⟩ := hh
  refine ⟨u, v ++ w, ?_, hrest⟩
  rw [← List.append_assoc]
  exact hk _ w hu hw

/-- All that a course of the goal passes is what the goal derives: the whole where it matches, and a
beginning up to every mismatch. -/
structure Passes (place : Nat → Token) (g : Goal) (i : Nat) (o : Outcome) (ns : List Note) :
    Prop where
  spans : ∀ f j, o = some (f, j) → Spans place g i j
  begins : ∀ j ∈ Note.mismatches ns, Begins place g i j

namespace Passes

variable {o o' : Outcome} {ns ms : List Note} {f : Forest}

/-- A course passes what every goal derives that derives as much as its own. -/
theorem imp (hp : Passes place g i o ns) (hgh : ∀ w, g.Derives w → h.Derives w) :
    Passes place h i o ns :=
  ⟨fun f j ho => (hp.spans f j ho).imp hgh, fun j hj => (hp.begins j hj).imp hgh⟩

/-- A goal that is missed, where another one was to follow. -/
theorem missed (hp : Passes place g i none ns) (hh : ∃ w, h.Derives w)
    (hk : ∀ u w, g.Derives u → h.Derives w → k.Derives (u ++ w)) : Passes place k i none ns :=
  ⟨nofun, fun j hj => (hp.begins j hj).extend hh hk⟩

/-- A goal that matches, and behind it another one. -/
theorem append (hp : Passes place g i (some (f, j)) ns) (hq : Passes place h j o ms)
    (hh : ∃ w, h.Derives w) (hk : ∀ u w, g.Derives u → h.Derives w → k.Derives (u ++ w))
    (ho : ∀ f' l, o' = some (f', l) → ∃ f, o = some (f, l)) : Passes place k i o' (ns ++ ms) := by
  have hspan := hp.spans f j rfl
  constructor
  · intro f' l hsome
    obtain ⟨f, hf⟩ := ho f' l hsome
    exact hspan.append (hq.spans f l hf) hk
  · intro p hmem
    rw [Note.mismatches_append, List.mem_append] at hmem
    rcases hmem with hmem | hmem
    · exact (hp.begins p hmem).extend hh hk
    · exact hspan.begins (hq.begins p hmem) hk

end Passes

namespace Course

variable {o : Outcome} {ns : List Note}

/-- **What a course passes is what its goal derives.** -/
theorem passes (hc : Course place g i o ns) (hg : g.WellFormed) : Passes place g i o ns := by
  -- A mismatch begins a derivation only if what was still to come derives something too.
  have hsteps : ∀ {ds : List Designator}, AllWellFormed ds → ∃ w, (Goal.steps [] ds).Derives w := by
    intro ds hds
    obtain ⟨ks, w, hks, hw⟩ := exists_derives_steps ds hds
    exact ⟨w, ks, hks, hw⟩
  have htails : ∀ {tail : List Designator}, ∃ w, (Goal.tails tail).Derives w :=
    ⟨[], Goal.derives_tails_nil⟩
  have hsame : ∀ {f g : Forest} {l : Nat} (f' : Forest) (l' : Nat),
      some (f ++ g, l) = some (f', l') → ∃ g' : Forest, some (g, l) = some (g', l') := by
    rintro f g l f' l' ⟨⟩
    exact ⟨g, rfl⟩
  induction hc with
  | @token_hit k i hk =>
    refine ⟨?_, nofun⟩
    rintro f j ⟨⟩
    have hstand : StandAt place i [place i] := standAt_cons.2 ⟨rfl, standAt_nil⟩
    exact ⟨[k], ⟨_, rfl, .token .nil⟩, ⟨[place i], hstand, by simp [hk]⟩, rfl⟩
  | @token_miss k i _ =>
    refine ⟨nofun, fun j hj => ?_⟩
    obtain rfl := List.mem_singleton.1 hj
    exact ⟨[], [k], ⟨_, rfl, .token .nil⟩, kindsAt_nil, rfl⟩
  | sub _ ih => exact (ih trivial).imp fun _ => id
  | optional_hit _ ih => exact (ih hg).imp fun _ => Goal.derives_optional
  | optional_miss _ ih =>
    refine ⟨?_, ((ih hg).imp fun _ => Goal.derives_optional).begins⟩
    rintro f j ⟨⟩
    exact ⟨[], ⟨[], .inl rfl, .nil⟩, kindsAt_nil, rfl⟩
  | steps_nil =>
    refine ⟨?_, nofun⟩
    rintro f j ⟨⟩
    exact ⟨[], ⟨[], rfl, .nil⟩, kindsAt_nil, rfl⟩
  | @steps_miss done d ds _ _ _ ih =>
    have hmissed := (ih hg.1).missed (k := .steps done (d :: ds)) (hsteps hg.2)
      fun _ _ => Goal.derives_cons
    refine ⟨nofun, fun j hj => hmissed.begins j ?_⟩
    simpa using hj
  | steps_behind _ _ ihd ih =>
    exact (ihd hg.1).append (ih hg.2) (hsteps hg.2) (fun _ _ => Goal.derives_cons) nofun
  | steps_hit _ _ ihd ih =>
    exact (ihd hg.1).append (ih hg.2) (hsteps hg.2) (fun _ _ => Goal.derives_cons) hsame
  | choice_nil => exact ⟨nofun, nofun⟩
  | @choice_hit ds rest _ _ _ _ _ ih =>
    exact (ih (hg ds (.head _))).imp fun _ => Goal.derives_choice (.head _)
  | @choice_next ds rest _ _ _ _ _ _ ih ihrest =>
    have hrest := (ihrest fun es hes => hg es (.tail _ hes)).imp
      (h := .choice (ds :: rest)) fun _ => Goal.derives_choice_cons
    refine ⟨hrest.spans, fun p hp => ?_⟩
    rw [Note.mismatches_append, List.mem_append] at hp
    rcases hp with hp | hp
    · exact ((ih (hg ds (.head _))).begins p hp).imp fun _ => Goal.derives_choice (.head _)
    · exact hrest.begins p hp
  | tails_stop _ ih =>
    refine ⟨?_, ((ih hg).missed htails fun _ _ => Goal.derives_tails_cons).begins⟩
    rintro f j ⟨⟩
    exact ⟨[], Goal.derives_tails_nil, kindsAt_nil, rfl⟩
  | tails_more _ _ ih ihrest =>
    exact (ih hg).append (ihrest hg) htails (fun _ _ => Goal.derives_tails_cons) hsame
  | repetition_miss _ ih =>
    exact (ih hg.1).missed htails fun _ _ => Goal.derives_repetition
  | repetition_hit _ _ ih ihrest =>
    exact (ih hg.1).append (ihrest hg.2) htails (fun _ _ => Goal.derives_repetition) hsame
  | @rule_miss k _ _ _ ih =>
    refine ⟨nofun, fun j hj => ?_⟩
    rw [Note.mismatches_around] at hj
    exact ((ih (Goal.wellFormed_ofBody k)).begins j hj).imp fun _ => Goal.derives_rule
  | @rule_hit k _ j f _ _ ih =>
    have hbody := (ih (Goal.wellFormed_ofBody k)).imp fun _ => Goal.derives_rule
    constructor
    · rintro f' j' ⟨⟩
      exact hbody.spans f j rfl
    · intro p hp
      rw [Note.mismatches_around] at hp
      exact hbody.begins p hp

/-! ### The furthest mismatch -/

/-- A match never ends in front of its place. -/
theorem le_end (hc : Course place g i o ns) : ∀ f j, o = some (f, j) → i ≤ j := by
  induction hc with
  | token_hit _ | optional_miss _ _ | steps_nil | tails_stop _ _ =>
    rintro f j ⟨⟩
    omega
  | token_miss _ | steps_miss _ | steps_behind _ _ | choice_nil | repetition_miss _
  | rule_miss _ => exact nofun
  | sub _ ih | optional_hit _ ih | choice_hit _ ih | choice_next _ _ _ ih => exact ih
  | steps_hit _ _ ih ih' | tails_more _ _ ih ih' | repetition_hit _ _ ih ih' =>
    rintro f j ⟨⟩
    exact Nat.le_trans (ih _ _ rfl) (ih' _ _ rfl)
  | rule_hit _ ih =>
    rintro f j ⟨⟩
    exact ih _ _ rfl

/-- A course that misses notes a mismatch from its start on, if there is anything to ask for. -/
theorem exists_mismatch (hc : Course place g i o ns) (ho : o = none) (hg : g ≠ .choice []) :
    ∃ j ∈ Note.mismatches ns, i ≤ j := by
  induction hc with
  | token_hit _ | optional_hit _ _ | optional_miss _ _ | steps_nil | steps_hit _ _
  | choice_hit _ _ | tails_stop _ _ | tails_more _ _ | repetition_hit _ _ | rule_hit _ _ => cases ho
  | @token_miss _ i _ => exact ⟨i, by simp, Nat.le_refl i⟩
  | sub _ ih => exact ih ho nofun
  | steps_miss _ ih =>
    obtain ⟨j, hj, hle⟩ := ih rfl nofun
    exact ⟨j, by simp [hj], hle⟩
  | steps_behind hd _ _ ih =>
    obtain ⟨j, hj, hle⟩ := ih rfl nofun
    exact ⟨j, by simp [hj], Nat.le_trans (hd.le_end _ _ rfl) hle⟩
  | choice_nil => exact absurd rfl hg
  | choice_next _ _ ih _ =>
    obtain ⟨j, hj, hle⟩ := ih rfl nofun
    exact ⟨j, by simp [hj], hle⟩
  | repetition_miss _ ih => exact ih rfl nofun
  | @rule_miss k _ _ _ ih =>
    obtain ⟨j, hj, hle⟩ := ih rfl (by cases k <;> exact nofun)
    exact ⟨j, by simpa using hj, hle⟩

/-- **A course depends on the tokens up to its furthest mismatch only.** Over tokens that are the
same up to there it is the same course, if it does not end further on. -/
theorem of_agree {place' : Nat → Token} {m : Nat} (hplace : ∀ p, p ≤ m → place' p = place p)
    (hc : Course place g i o ns) (hm : ∀ p ∈ Note.mismatches ns, p ≤ m)
    (hend : ∀ f j, o = some (f, j) → j ≤ m + 1) : Course place' g i o ns := by
  induction hc with
  | @token_hit k i hk =>
    have hle := hend _ _ rfl
    rw [← hplace i (by omega)] at hk ⊢
    exact .token_hit hk
  | @token_miss k i hk =>
    rw [← hplace i (hm i (by simp))] at hk
    exact .token_miss hk
  | sub _ ih => exact .sub (ih hm hend)
  | optional_hit _ ih => exact .optional_hit (ih hm hend)
  | optional_miss _ ih => exact .optional_miss (ih hm nofun)
  | steps_nil => exact .steps_nil
  | steps_miss _ ih =>
    simp only [Note.mismatches_append, Note.mismatches_returned, List.append_nil] at hm
    exact .steps_miss (ih hm nofun)
  | @steps_behind _ f _ _ _ j _ _ _ hds ihd ih =>
    rw [Note.mismatches_append, List.forall_mem_append] at hm
    -- The first step ends no further than where the steps behind it mismatch.
    obtain ⟨p, hp, hle⟩ := hds.exists_mismatch rfl nofun
    have hlast := hm.2 p hp
    refine .steps_behind (ihd hm.1 ?_) (ih hm.2 nofun)
    rintro f' j' ⟨⟩
    omega
  | @steps_hit _ f g _ _ _ j l _ _ _ hds ihd ih =>
    rw [Note.mismatches_append, List.forall_mem_append] at hm
    have hle := hds.le_end _ _ rfl
    have hlast := hend _ _ rfl
    refine .steps_hit (ihd hm.1 ?_) (ih hm.2 ?_)
    · rintro f' j' ⟨⟩
      omega
    · rintro f' j' ⟨⟩
      exact hlast
  | choice_nil => exact .choice_nil
  | choice_hit _ ih => exact .choice_hit (ih hm hend)
  | choice_next _ _ ih ihrest =>
    rw [Note.mismatches_append, List.forall_mem_append] at hm
    exact .choice_next (ih hm.1 nofun) (ihrest hm.2 hend)
  | tails_stop _ ih => exact .tails_stop (ih hm nofun)
  | @tails_more _ _ j l f g _ _ _ hrest ih ihrest =>
    rw [Note.mismatches_append, List.forall_mem_append] at hm
    have hle := hrest.le_end _ _ rfl
    have hlast := hend _ _ rfl
    refine .tails_more (ih hm.1 ?_) (ihrest hm.2 ?_)
    · rintro f' j' ⟨⟩
      omega
    · rintro f' j' ⟨⟩
      exact hlast
  | repetition_miss _ ih => exact .repetition_miss (ih hm nofun)
  | @repetition_hit _ _ _ j l f g _ _ _ hrest ih ihrest =>
    rw [Note.mismatches_append, List.forall_mem_append] at hm
    have hle := hrest.le_end _ _ rfl
    have hlast := hend _ _ rfl
    refine .repetition_hit (ih hm.1 ?_) (ihrest hm.2 ?_)
    · rintro f' j' ⟨⟩
      omega
    · rintro f' j' ⟨⟩
      exact hlast
  | rule_miss _ ih =>
    rw [Note.mismatches_around] at hm
    exact .rule_miss (ih hm nofun)
  | rule_hit _ ih =>
    rw [Note.mismatches_around] at hm
    have hlast := hend _ _ rfl
    refine .rule_hit (ih hm ?_)
    rintro f' j' ⟨⟩
    exact hlast

end Course

end ByPlace
end BoolQuery
