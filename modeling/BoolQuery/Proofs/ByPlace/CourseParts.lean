/-
# Courses taken apart

What a course of a production went through: the whitespace that may be missing, the tokens between
two items, the parts of a group. Where no production is begun nothing is noted that opens or closes
one, so the events of a course are those of the productions in it.
-/

import BoolQuery.Proofs.ByPlace.Course

namespace BoolQuery

open Grammar Recognizer

namespace Recognizer

/-- The events open and close no production. -/
structure Still (es : List Event) : Prop where
  opens : es.countP Event.opens = 0
  closes : es.countP Event.closes = 0

/-- Without events nothing is opened or closed. -/
theorem Still.nil : Still [] := ⟨rfl, rfl⟩

/-- Where nothing is opened or closed as much is closed as is opened. -/
theorem Still.level {es : List Event} (h : Still es) : Level es := h.opens.trans h.closes.symm

/-- Where nothing is opened nothing is nested. -/
theorem Still.nesting {es : List Event} (h : Still es) : nesting es = 0 := crest_eq_zero h.opens

end Recognizer

namespace ByPlace

open BoolQuery.Tree

/-- Giving trees back opens and closes nothing. -/
theorem Note.still_returned (f : Forest) : Still (Note.events (Note.returned f)) := by
  cases f <;> exact ⟨rfl, rfl⟩

namespace Course

variable {place : Nat → Token} {i j : Nat} {o : Outcome} {ns : List Note}

/-- A course closes the productions that it opens. -/
theorem level {g : Goal} (h : Course place g i o ns) : Level (Note.events ns) := by
  induction h with
  | token_hit _ | token_miss _ | steps_nil | choice_nil => rfl
  | sub _ ih | optional_hit _ ih | optional_miss _ ih | choice_hit _ ih | tails_stop _ ih
  | repetition_miss _ ih => exact ih
  | @steps_miss done _ _ _ _ _ ih =>
    rw [Note.events_append]
    exact ih.append (Note.still_returned done).level
  | steps_behind _ _ ih ih' | steps_hit _ _ ih ih' | choice_next _ _ ih ih'
  | tails_more _ _ ih ih' | repetition_hit _ _ ih ih' =>
    rw [Note.events_append]
    exact ih.append ih'
  | rule_miss _ ih | rule_hit _ ih =>
    rw [Note.events_around]
    exact ih.around _ _

/-- One part of a course after the other. -/
theorem nesting_append {g : Goal} {ms : List Note} (h : Course place g i o ns) :
    nesting (Note.events (ns ++ ms)) =
      max (nesting (Note.events ns)) (nesting (Note.events ms)) := by
  rw [Note.events_append, Recognizer.nesting_append h.level]

/-- A step that asks for a token misses without any event, or takes the token at its place. -/
theorem of_token {k : TokenKind} {done : Forest} {ds : List Designator}
    (h : Course place (.steps done (tok k :: ds)) i o ns) :
    ((place i).kind ≠ .token k ∧ o = none ∧ Still (Note.events ns)) ∨
    ((place i).kind = .token k ∧ ∃ o' : Outcome,
      Course place (.steps (done ++ [leaf (place i)]) ds) (i + 1) o' ns ∧
        o = o'.map fun r => (leaf (place i) :: r.1, r.2)) := by
  cases h with
  | steps_miss h =>
    cases h with
    | token_miss h => exact .inl ⟨h, rfl, Note.still_returned done⟩
  | steps_behind hd hds =>
    cases hd with
    | token_hit h => exact .inr ⟨h, none, hds, rfl⟩
  | steps_hit hd hds =>
    cases hd with
    | token_hit h => exact .inr ⟨h, some _, hds, rfl⟩

/-- Whitespace that may be missing is taken if it stands there. -/
theorem of_space {done : Forest} {ds : List Designator}
    (h : Course place (.steps done (space? :: ds)) i o ns) :
    ∃ (f : Forest) (j : Nat) (o' : Outcome) (ms : List Note),
      Course place (.steps (done ++ f) ds) j o' ms ∧ Note.events ns = Note.events ms ∧
        (o = o'.map fun r => (f ++ r.1, r.2)) ∧
        (((place i).kind = .token .whitespace ∧ j = i + 1 ∧ f = [leaf (place i)]) ∨
          ((place i).kind ≠ .token .whitespace ∧ j = i ∧ f = [])) := by
  have hspace : ∀ {f : Forest} {j : Nat} {ms : List Note},
      Course place (.step space?) i (some (f, j)) ms → Note.events ms = [] ∧
        (((place i).kind = .token .whitespace ∧ j = i + 1 ∧ f = [leaf (place i)]) ∨
          ((place i).kind ≠ .token .whitespace ∧ j = i ∧ f = [])) := by
    intro f j ms hd
    cases hd with
    | optional_hit hd =>
      rcases hd.of_token with ⟨-, hnone, -⟩ | ⟨hk, o', hnil, ho⟩
      · cases hnone
      · cases hnil
        cases ho
        exact ⟨rfl, .inl ⟨hk, rfl, rfl⟩⟩
    | optional_miss hd =>
      cases hd with
      | steps_miss hd =>
        cases hd with
        | token_miss hk => exact ⟨rfl, .inr ⟨hk, rfl, rfl⟩⟩
      | steps_behind hd hds => cases hds
  cases h with
  | steps_miss h => cases h
  | @steps_behind _ f _ _ _ j ms ks hd hds =>
    obtain ⟨hevents, hcases⟩ := hspace hd
    exact ⟨f, j, none, ks, hds, by rw [Note.events_append, hevents, List.nil_append], rfl, hcases⟩
  | @steps_hit _ f _ _ _ _ j _ ms ks hd hds =>
    obtain ⟨hevents, hcases⟩ := hspace hd
    exact ⟨f, j, some _, ks, hds, by rw [Note.events_append, hevents, List.nil_append], rfl,
      hcases⟩

/-- A production that is asked for among other steps, with what these note behind it. -/
theorem of_sub {k : NodeKind} {done : Forest} {ds : List Designator}
    (h : Course place (.steps done (Grammar.sub k :: ds)) i o ns) :
    (∃ ms, Course place (.rule k) i none ms ∧ o = none ∧ ns = ms ++ Note.returned done) ∨
    (∃ (f : Forest) (j : Nat) (o' : Outcome) (ms ks : List Note),
      Course place (.rule k) i (some ([.node k f], j)) ms ∧
        Course place (.steps (done ++ [.node k f]) ds) j o' ks ∧ ns = ms ++ ks ∧
        o = o'.map fun r => (.node k f :: r.1, r.2)) := by
  cases h with
  | steps_miss h =>
    cases h with
    | sub h => exact .inl ⟨_, h, rfl, rfl⟩
  | steps_behind hd hds =>
    cases hd with
    | sub h =>
      cases h with
      | rule_hit h => exact .inr ⟨_, _, none, _, _, .rule_hit h, hds, rfl, rfl⟩
  | steps_hit hd hds =>
    cases hd with
    | sub h =>
      cases h with
      | rule_hit h => exact .inr ⟨_, _, some _, _, _, .rule_hit h, hds, rfl, rfl⟩

/-- One production that is asked for and matches. -/
theorem of_sub_hit {m : NodeKind} {done f : Forest}
    (h : Course place (.steps done [Grammar.sub m]) i (some (f, j)) ns) :
    ∃ g, f = [.node m g] ∧ Course place (.rule m) i (some ([.node m g], j)) ns := by
  rcases h.of_sub with ⟨ms, -, hnone, -⟩ | ⟨g, l, o, ms, ks, hm, hend, rfl, hsome⟩
  · cases hnone
  · cases hend
    cases hsome
    rw [List.append_nil]
    exact ⟨g, rfl, hm⟩

/-- One production that is asked for and misses. -/
theorem of_sub_miss {m : NodeKind} (h : Course place (.steps [] [Grammar.sub m]) i none ns) :
    Course place (.rule m) i none ns := by
  rcases h.of_sub with ⟨ms, hm, -, rfl⟩ | ⟨g, l, o, ms, ks, -, hend, -, hnone⟩
  · rwa [Note.returned, List.append_nil]
  · cases hend
    cases hnone

/-- A production is its body between its beginning and its end. -/
theorem of_rule {k : NodeKind} (h : Course place (.rule k) i o ns) :
    ∃ (o' : Outcome) (ms : List Note), Course place (.ofBody (Grammar.body k)) i o' ms ∧
      ns = Note.around k (o'.map Prod.fst) ms ∧ o = o'.map fun r => ([.node k r.1], r.2) := by
  cases h with
  | rule_miss h => exact ⟨none, _, h, rfl, rfl⟩
  | rule_hit h => exact ⟨some _, _, h, rfl, rfl⟩

/-- The right alternative is the first one, or behind one that misses. -/
theorem of_choice_cons {ds : List Designator} {rest : List (List Designator)} {f : Forest}
    (h : Course place (.choice (ds :: rest)) i (some (f, j)) ns) :
    Course place (.steps [] ds) i (some (f, j)) ns ∨
    ∃ us ms, Course place (.steps [] ds) i none us ∧
      Course place (.choice rest) i (some (f, j)) ms ∧
      nesting (Note.events ns) = max (nesting (Note.events us)) (nesting (Note.events ms)) := by
  cases h with
  | choice_hit h => exact .inl h
  | choice_next h hrest => exact .inr ⟨_, _, h, hrest, h.nesting_append⟩

/-- A single alternative is no choice. -/
theorem of_single {ds : List Designator} (h : Course place (.choice [ds]) i o ns) :
    Course place (.steps [] ds) i o ns := by
  cases h with
  | choice_hit h => exact h
  | choice_next h hrest =>
    cases hrest
    rwa [List.append_nil]

/-- A tail of a chain misses in front of its item or at it, or the item matches. -/
theorem of_joining {m : NodeKind} {keyword : TokenKind}
    (h : Course place
      (.steps [] [tok .whitespace, tok keyword, tok .whitespace, Grammar.sub m]) i o ns) :
    (o = none ∧ Still (Note.events ns)) ∨
    ((place i).kind = .token .whitespace ∧ (place (i + 1)).kind = .token keyword ∧
      (place (i + 2)).kind = .token .whitespace ∧
      ((∃ ms ks, Course place (.rule m) (i + 3) none ms ∧ o = none ∧ Still (Note.events ks) ∧
          ns = ms ++ ks) ∨
        ∃ f j, Course place (.rule m) (i + 3) (some ([.node m f], j)) ns ∧
          o = some
            ([leaf (place i), leaf (place (i + 1)), leaf (place (i + 2)), .node m f], j))) := by
  rcases h.of_token with ⟨-, rfl, hns⟩ | ⟨hfirst, o₁, h₁, rfl⟩
  · exact .inl ⟨rfl, hns⟩
  rcases h₁.of_token with ⟨-, rfl, hns⟩ | ⟨hsecond, o₂, h₂, rfl⟩
  · exact .inl ⟨rfl, hns⟩
  rcases h₂.of_token with ⟨-, rfl, hns⟩ | ⟨hthird, o₃, h₃, rfl⟩
  · exact .inl ⟨rfl, hns⟩
  refine .inr ⟨hfirst, hsecond, hthird, ?_⟩
  rcases h₃.of_sub with ⟨ms, hm, rfl, rfl⟩ | ⟨f, j, o', ms, ks, hm, hend, rfl, rfl⟩
  · exact .inl ⟨ms, _, hm, rfl, Note.still_returned _, rfl⟩
  · cases hend
    rw [List.append_nil]
    exact .inr ⟨f, j, hm, rfl⟩

/-- A group misses in front of its parenthesis, or its query is tried, and only a query that matched
and is closed makes it match. -/
theorem of_group
    (h : Course place (.steps [] [tok .parenOpen, space?, Grammar.sub .query, space?,
      tok .parenClose]) i o ns) :
    ((place i).kind ≠ .token .parenOpen ∧ o = none ∧ Still (Note.events ns)) ∨
    ((place i).kind = .token .parenOpen ∧ ∃ (j : Nat) (o' : Outcome) (ms ks : List Note),
      (j = i + 1 ∨ (place (i + 1)).kind = .token .whitespace ∧ j = i + 2) ∧
      Course place (.rule .query) j o' ms ∧ Still (Note.events ks) ∧
      Note.events ns = Note.events (ms ++ ks) ∧
      ∀ f l, o = some (f, l) → ∃ q m, o' = some ([q], m) ∧ q ∈ f ∧
        ((place m).kind = .token .parenClose ∧ l = m + 1 ∨
          (place m).kind = .token .whitespace ∧ (place (m + 1)).kind = .token .parenClose ∧
            l = m + 2)) := by
  rcases h.of_token with ⟨hopen, rfl, hns⟩ | ⟨hopen, o₁, h₁, rfl⟩
  · exact .inl ⟨hopen, rfl, hns⟩
  refine .inr ⟨hopen, ?_⟩
  obtain ⟨f, j, o₂, ms, h₂, hevents, rfl, hspace⟩ := h₁.of_space
  have hj : j = i + 1 ∨ (place (i + 1)).kind = .token .whitespace ∧ j = i + 2 := by
    rcases hspace with ⟨hk, rfl, -⟩ | ⟨-, rfl, -⟩
    · exact .inr ⟨hk, rfl⟩
    · exact .inl rfl
  rcases h₂.of_sub with ⟨ks, hq, rfl, rfl⟩ | ⟨g, m, o₃, ks, us, hq, h₃, rfl, rfl⟩
  · exact ⟨j, none, ks, _, hj, hq, Note.still_returned _, hevents, nofun⟩
  obtain ⟨f', l, o₄, vs, h₄, hevents', rfl, hspace'⟩ := h₃.of_space
  -- Behind the query only tokens are asked for.
  have hbehind : Still (Note.events vs) := by
    rcases h₄.of_token with ⟨-, -, hvs⟩ | ⟨-, o₅, hend, -⟩
    · exact hvs
    · cases hend
      exact .nil
  refine ⟨j, _, ks, vs, hj, hq, hbehind, ?_, fun f'' l' hsome => ?_⟩
  · rw [hevents, Note.events_append, Note.events_append, hevents']
  · rcases h₄.of_token with ⟨-, rfl, -⟩ | ⟨hclose, o₅, hend, rfl⟩
    · cases hsome
    · cases hend
      cases hsome
      refine ⟨_, m, rfl, by simp, ?_⟩
      rcases hspace' with ⟨hk, rfl, -⟩ | ⟨-, rfl, -⟩
      · exact .inr ⟨hk, hclose, rfl⟩
      · exact .inl ⟨hclose, rfl⟩

/-- A query is its `OrTerm`, with the whitespace around it. -/
theorem of_query (h : Course place (.rule .query) i o ns) :
    ∃ (j : Nat) (o' : Outcome) (ms ks : List Note) (f : Option Forest),
      (j = i ∨ (place i).kind = .token .whitespace ∧ j = i + 1) ∧
      Course place (.rule .orTerm) j o' ms ∧ Still (Note.events ks) ∧
      Note.events ns = Event.around .query f (Note.events (ms ++ ks)) ∧
      ∀ t l, o = some ([t], l) → ∃ g r m, t = .node .query g ∧ o' = some ([r], m) ∧ r ∈ g ∧
        ((place m).kind = .token .whitespace ∧ l = m + 1 ∨
          (place m).kind ≠ .token .whitespace ∧ l = m) := by
  obtain ⟨o₁, ns', hbody, rfl, rfl⟩ := h.of_rule
  obtain ⟨f, j, o₂, ms, h₂, hevents, rfl, hspace⟩ := hbody.of_single.of_space
  have hj : j = i ∨ (place i).kind = .token .whitespace ∧ j = i + 1 := by
    rcases hspace with ⟨hk, rfl, -⟩ | ⟨-, rfl, -⟩
    · exact .inr ⟨hk, rfl⟩
    · exact .inl rfl
  rw [Note.events_around, hevents]
  rcases h₂.of_sub with ⟨ks, hr, rfl, rfl⟩ | ⟨g, m, o₃, ks, us, hr, h₃, rfl, rfl⟩
  · exact ⟨j, none, ks, _, _, hj, hr, Note.still_returned _, rfl, nofun⟩
  obtain ⟨f', l, o₄, vs, h₄, hevents', rfl, hspace'⟩ := h₃.of_space
  cases h₄
  have hbehind : Note.events (ks ++ us) = Note.events (ks ++ []) := by
    rw [Note.events_append, Note.events_append, hevents']
  refine ⟨j, _, ks, [], _, hj, hr, .nil, congrArg _ hbehind, ?_⟩
  · intro t l' hsome
    cases hsome
    refine ⟨_, _, m, rfl, rfl, by simp, ?_⟩
    rcases hspace' with ⟨hk, rfl, -⟩ | ⟨hk, rfl, -⟩
    · exact .inl ⟨hk, rfl⟩
    · exact .inr ⟨hk, rfl⟩

end Course

end ByPlace
end BoolQuery
