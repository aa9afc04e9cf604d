/-
# Running with checks

A checked attempt goes through the line as an attempt does and checks every operation on the way. It
matches right-hand sides in the same ways (`Means`), only the means are checked: tokens are read
with checks, a production is opened only if the depth fits into 32 bits, a node is built only with
the kind of a node, and what is optional takes it for granted that the alternative without steps
matches.

`Mirrored` says that a checked computation does what the one without checks does, as long as the
depth fits at every time. How deep a computation gets is told by the events that it shows
(`Recognizer.nesting`).
-/

import BoolQuery.Proofs.Checked.Reading
import BoolQuery.Proofs.Nesting.Lockstep
import BoolQuery.Proofs.Outcome

namespace BoolQuery

open Recognizer Grammar

/-- Steps of a checked attempt. -/
abbrev CheckedM := EStateM Breach State

namespace Checked

variable {α β : Type}

/-- A step that is not checked; a fault of it is a breach. -/
def lift (act : RecognizerM α) : CheckedM α := fun s =>
  match act s with
  | .ok a t => .ok a t
  | .error fault t => .error (.fault fault) t

/-- What was computed with checks, as a step. -/
def ofExcept (x : Except Breach α) : CheckedM α := fun s =>
  match x with
  | .ok a => .ok a s
  | .error breach => .error breach s

/-! ### Checked attempts -/

section

variable (line : List Char)

/-- Reads one token. -/
def nextToken : CheckedM Token := do
  let s ← get
  let (t, r) ← ofExcept (next line s.reader)
  set { s with reader := r }
  return t

/-- Reads one token of the given kind; any other is given back at once. -/
def terminal (kind : Kind) : CheckedM (Option Token) :=
  match kind with
  | .token _ => do
    let t ← nextToken line
    if t.kind = kind then
      return some t
    else
      lift (RecognizerM.noteMismatch t)
      lift (RecognizerM.giveBack [t])
      return none
  | _ => throw (.fault (.unsupportedTerminal kind))

/-- Opens a production if the limit allows it, and tells whether it did. -/
def openRule : CheckedM Bool := do
  let isOpen ← lift RecognizerM.openRule
  let s ← get
  if s.depth < 2 ^ 32 then return isOpen
  else throw (.depth s.depth)

/-- The first of two alternatives, or else the second. -/
def orElse (first second : CheckedM (Option Forest)) : CheckedM (Option Forest) := do
  match ← first with
  | some f => return some f
  | none => second

/-- What a checked attempt matches with. -/
def means (rule : Kind → CheckedM (Option Tree)) : Means Breach where
  terminal := terminal line
  rule := rule
  unread f := lift (RecognizerM.unread f)
  optional first := do
    -- The second alternative has no steps.
    let f? ← orElse first (return some [])
    return some (← ofExcept (expected .noAlternative f?))
  endless := .fault .endless

/-- Closes a production whose right-hand side answered, and tells its node. -/
def closeRule (kind : Kind) (children? : Option Forest) : CheckedM (Option Tree) := do
  lift RecognizerM.closeRule
  match children? with
  | some children =>
    let node ← ofExcept ((node? kind children).mapError .fault)
    lift (RecognizerM.emit (.matched node))
    return some node
  | none =>
    lift (RecognizerM.emit (.failed kind))
    return none

/-- Runs the production of a kind, at most `bound` of them one inside another. -/
def ruleWithin : Nat → Kind → CheckedM (Option Tree)
  | 0, _ => throw (.fault .endless)
  | bound + 1, kind => do
    if ← openRule then
      lift (RecognizerM.emit (.enter kind))
      match kind with
      | .node k => closeRule kind (← (means line (ruleWithin bound)).body (Grammar.body k))
      | _ => throw (.fault (.unsupportedRule kind))
    else
      return none

/-- Runs the production of a kind. -/
def rule (kind : Kind) : CheckedM (Option Tree) := do
  ruleWithin line (← get).nesting kind

/-- Runs `Query` and asks for the end of the line after it. -/
def parse : CheckedM (Except Rejection Tree) := do
  let root? ← rule line (.node .query)
  let s ← get
  if s.spent then
    return .error .nestingLimit
  else
    match root? with
    | some root =>
      let t ← nextToken line
      if t.kind = .token .eof then
        return .ok root
      else
        return .error (.trailingInput t.kind t.text t.span)
    | none =>
      match s.furthest with
      | some t => return .error (.noMatch t.kind t.span)
      | none =>
        let t ← nextToken line
        return .error (.noMatch t.kind t.span)

end

/-- Recognizes a line, and tells what an observer saw. -/
def recognizeTraced (limit : Option Nat) (line : String) :
    Except Breach (Except Rejection Tree × List Event) :=
  match parse line.toList (State.start line limit) with
  | .ok answer s => .ok (answer, s.events.toList)
  | .error breach _ => .error breach

/-! ### What is done without checks -/

/-- After a first computation that answers, a sequence runs on from its answer. -/
theorem bind_run {x : CheckedM α} {f : α → CheckedM β} {s t : State} {a : α}
    (h : x s = .ok a t) : (x >>= f) s = f a t := by
  show EStateM.bind x f s = f a t
  simp only [EStateM.bind, h]

/-- A lifted computation answers as it does unlifted. -/
theorem lift_run {act : RecognizerM α} {s t : State} {a : α} (h : act s = .ok a t) :
    lift act s = .ok a t := by
  rw [lift, h]

/-- The checked computation does what the other one does, as long as the depth fits. -/
structure Mirrored (line : List Char) (act : RecognizerM α) (checked : CheckedM α) : Prop where
  limited : RecognizerM.Limited act
  run : ∀ s a s' es, s.reader.StandsIn line → act s = .ok a s' → Passage s s' es →
    s.depth + nesting es < 2 ^ 32 → checked s = .ok a s' ∧ s'.reader.StandsIn line

namespace Mirrored

variable {line : List Char}

/-- An answer given at once breaks nothing. -/
theorem pure (a : α) : Mirrored line (Pure.pure a : RecognizerM α) (Pure.pure a) where
  limited := .pure a
  run s b s' es hs h _ _ := by
    cases h
    exact ⟨rfl, hs⟩

/-- One computation after the other: what is open at once in both is open in one of them. -/
theorem bind {x : RecognizerM α} {f : α → RecognizerM β} {x' : CheckedM α} {f' : α → CheckedM β}
    (hx : Mirrored line x x') (hf : ∀ a, Mirrored line (f a) (f' a)) :
    Mirrored line (x >>= f) (x' >>= f') where
  limited := hx.limited.bind fun a => (hf a).limited
  run s c s' gs hs h hgs hdepth := by
    obtain ⟨a, u, ha, hc⟩ := RecognizerM.bind_ok h
    obtain ⟨es, hes⟩ := hx.limited.passage s a u ha
    obtain ⟨fs, hfs⟩ := (hf a).limited.passage u c s' hc
    obtain rfl : gs = es ++ fs := hgs.events_eq (hes.trans hfs)
    rw [nesting_append hes.level] at hdepth
    have hsame := hes.depth
    obtain ⟨hx', hu⟩ := hx.run s a u es hs ha hes (by omega)
    obtain ⟨hf', hs'⟩ := (hf a).run u c s' fs hu hc hfs (by omega)
    exact ⟨by rw [bind_run hx', hf'], hs'⟩

/-- Computations that look at their state first. -/
theorem get {f : State → RecognizerM α} {f' : State → CheckedM α}
    (hf : ∀ s, Mirrored line (f s) (f' s))
    (hwithin : ∀ limit s, s.spent = false → f (s.within limit) = f s) :
    Mirrored line (MonadState.get >>= f) (MonadState.get >>= f') where
  limited := .get (fun s => (hf s).limited) hwithin
  run s a s' es hs h hes hdepth := by
    rw [RecognizerM.bind_run (RecognizerM.get_run s)] at h
    exact (hf s).run s a s' es hs h hes hdepth

/-- A computation that is not checked and leaves the reader in the line. -/
theorem lift {act : RecognizerM α} (hl : RecognizerM.Limited act)
    (hact : ∀ s a s', act s = .ok a s' → s.reader.StandsIn line → s'.reader.StandsIn line) :
    Mirrored line act (Checked.lift act) where
  limited := hl
  run s a s' _ hs h _ _ := ⟨lift_run h, hact s a s' h hs⟩

/-- Steps that may be missing: one of the two alternatives always matches. -/
theorem optional {x : RecognizerM (Option Forest)} {x' : CheckedM (Option Forest)}
    (hx : Mirrored line x x') :
    Mirrored line (x >>= fun f => Pure.pure (some (f.getD [])))
      (orElse x' (Pure.pure (some [])) >>= fun f? =>
        ofExcept (expected .noAlternative f?) >>= fun f => Pure.pure (some f)) where
  limited := hx.limited.bind fun _ => .pure _
  run s a s' es hs h hes hdepth := by
    obtain ⟨f, u, hf, h⟩ := RecognizerM.bind_ok h
    cases h
    obtain ⟨hx', hs'⟩ := hx.run s f s' es hs hf hes hdepth
    refine ⟨?_, hs'⟩
    have hfound : orElse x' (Pure.pure (some [])) s = .ok (some (f.getD [])) s' := by
      rw [orElse, bind_run hx']
      cases f <;> rfl
    rw [bind_run hfound]
    rfl

end Mirrored

section

variable {line : List Char}

/-- Pushing tokens back checks nothing. -/
theorem unread_mirrored (f : Forest) :
    Mirrored line (RecognizerM.unread f) (lift (RecognizerM.unread f)) := by
  refine .lift (RecognizerM.unread_limited f) fun s a s' h hs => ?_
  rw [RecognizerM.unread_run] at h
  split at h
  · cases h
    exact hs
  · cases h
    exact hs.pushAll _

variable (hline : Text.bytes line < 2 ^ 32)
include hline

/-- In a reader that stands in its line the checked read gives the next token. -/
theorem nextToken_run {s : State} (hs : s.reader.StandsIn line) :
    nextToken line s = .ok s.reader.next.1 { s with reader := s.reader.next.2 } := by
  have hnext : ofExcept (next line s.reader) s = .ok s.reader.next s := by
    rw [next_eq hline hs, ofExcept]
  show (ofExcept (next line s.reader) >>= _) s = _
  rw [bind_run hnext]
  rfl

/-- The checked terminal does as the unchecked one. -/
theorem terminal_mirrored (kind : Kind) :
    Mirrored line (RecognizerM.terminal kind) (terminal line kind) where
  limited := RecognizerM.terminal_limited kind
  run s a s' es hs h _ _ := by
    cases kind with
    | node k => cases h
    | endMark => cases h
    | token k =>
      rw [RecognizerM.terminal_run] at h
      rw [terminal, bind_run (nextToken_run hline hs)]
      split at h
      · rename_i hk
        cases h
        rw [if_pos hk]
        exact ⟨rfl, hs.next⟩
      · rename_i hk
        cases h
        rw [if_neg hk]
        exact ⟨rfl, hs.next.pushAll _⟩

end

/-- The checked means do what the means without checks do, one by one. -/
theorem means_mirrored {line : List Char} {rule : Kind → RecognizerM (Option Tree)}
    {rule' : Kind → CheckedM (Option Tree)} (hline : Text.bytes line < 2 ^ 32)
    (hr : ∀ k, Mirrored line (rule k) (rule' k)) :
    Compatible (RecognizerM.means rule) (means line rule') Eq Eq (Mirrored line) := by
  refine .of_eq .pure .bind (terminal_mirrored hline) hr unread_mirrored .optional
    (fun hxy => .get (fun s => ?_) fun _ _ _ => rfl)
    (fun hxy => .get (fun _ => hxy _) fun _ _ _ => rfl)
    ⟨RecognizerM.limited_compositional.endless, fun s a s' es hs h => by cases h⟩
  split
  · exact .pure _
  · exact hxy

/-! ### Productions -/

section

variable {line : List Char}

/-- A production is opened with checks as without them, unless the depth behind it does not fit. -/
theorem openRule_run {s u : State} {b : Bool} (h : RecognizerM.openRule s = .ok b u) :
    openRule s = if u.depth < 2 ^ 32 then .ok b u else .error (.depth u.depth) u := by
  rw [openRule, bind_run (lift_run h)]
  show (if u.depth < 2 ^ 32 then _ else _ : CheckedM Bool) u = _
  split <;> rfl

/-- Closing the rule of a nonterminal passes its check. -/
theorem closeRule_run (k : NodeKind) (f : Option Forest) (u : State) :
    closeRule (.node k) f u = .ok (f.map (.node k)) (RecognizerM.closed k f u) := by
  cases f <;> rfl

variable (hline : Text.bytes line < 2 ^ 32)
include hline

/-- The checked rule does as the unchecked one, for every bound: by induction on the bound, around
`means_mirrored`. -/
theorem ruleWithin_mirrored (bound : Nat) (kind : Kind) :
    Mirrored line (RecognizerM.ruleWithin bound kind) (ruleWithin line bound kind) := by
  refine ⟨RecognizerM.ruleWithin_limited bound kind, ?_⟩
  induction bound generalizing kind with
  | zero =>
    intro s a s' es hs h
    cases h
  | succ bound ih =>
    intro s a s' gs hs h hgs hdepth
    simp only [ruleWithin]
    rcases RecognizerM.ruleWithin_succ_ok h with ⟨ho, rfl⟩ | ⟨k, f, u, rfl, ho, hf, rfl, rfl⟩
    · obtain ⟨hreader, hsame⟩ := RecognizerM.openRule_ok ho
      have hfits : s'.depth < 2 ^ 32 := by
        rw [hsame rfl]
        omega
      have hclosed : openRule s = .ok false s' := by rw [openRule_run ho, if_pos hfits]
      rw [bind_run hclosed, hreader]
      exact ⟨rfl, hs⟩
    · have hmeans := means_mirrored hline fun k => ⟨RecognizerM.ruleWithin_limited bound k, ih k⟩
      have hbody := hmeans.body (Grammar.body k)
      rw [← RecognizerM.body_eq] at hbody
      obtain ⟨es, hes⟩ := hbody.limited.passage _ f u hf
      obtain rfl : gs = Event.around k f es :=
        hgs.events_eq (RecognizerM.passage_of_body (RecognizerM.spent_of_openRule ho) hes f)
      rw [nesting_around hes.level] at hdepth
      -- The production takes one off what the nesting leaves for its right-hand side.
      have hfits : s.depth + 1 < 2 ^ 32 := by omega
      have hopened : openRule s = .ok true { s with depth := s.depth + 1 } := by
        rw [openRule_run ho, if_pos hfits]
      have hinner : (RecognizerM.opened (.node k) s).depth + nesting es < 2 ^ 32 := by
        show s.depth + 1 + nesting es < 2 ^ 32
        omega
      obtain ⟨hbody, hu⟩ := hbody.run (RecognizerM.opened (.node k) s) f u es hs hf hes hinner
      refine ⟨?_, hu⟩
      rw [bind_run hopened]
      show ((means line (ruleWithin line bound)).body (Grammar.body k) >>= closeRule (.node k))
        (RecognizerM.opened (.node k) s) = _
      rw [bind_run hbody, closeRule_run]

/-- The checked entry point does as the unchecked one. -/
theorem rule_mirrored (kind : Kind) :
    Mirrored line (RecognizerM.rule kind) (rule line kind) := by
  unfold RecognizerM.rule rule
  exact .get (fun s => ruleWithin_mirrored hline _ kind) fun limit s _ => rfl

/-- Asking for the end of the line never breaks off. -/
theorem parse_run {s u : State} {root? : Option Tree}
    (h : rule line (.node .query) s = .ok root? u) (hu : u.reader.StandsIn line) :
    ∃ v, parse line s = .ok (u.answer root?) v ∧ v.events = u.events := by
  rw [parse, bind_run h]
  show ∃ v, (if u.spent = true then _ else _ : CheckedM (Except Rejection Tree)) u = _ ∧ _
  unfold State.answer
  split
  · exact ⟨u, rfl, rfl⟩
  · cases root? with
    | some root =>
      refine ⟨{ u with reader := u.reader.next.2 }, ?_, rfl⟩
      show (nextToken line >>= _) u = _
      rw [bind_run (nextToken_run hline hu)]
      dsimp only
      split <;> rfl
    | none =>
      cases u.furthest with
      | some t => exact ⟨u, rfl, rfl⟩
      | none =>
        refine ⟨{ u with reader := u.reader.next.2 }, ?_, rfl⟩
        show (nextToken line >>= _) u = _
        rw [bind_run (nextToken_run hline hu)]
        rfl

end

/-- **A checked attempt never breaks off** on a line of less than `2 ^ 32` bytes, as long as
there are less than `2 ^ 32` productions open at once. It has the same answer and shows the same
events. -/
theorem recognizeTraced_eq {limit : Option Nat} {line : String}
    (hline : Text.bytes line.toList < 2 ^ 32)
    (hdepth : nesting (BoolQuery.recognizeTraced limit line).2 < 2 ^ 32) :
    recognizeTraced limit line = .ok (BoolQuery.recognizeTraced limit line) := by
  obtain ⟨root?, u, h, htraced⟩ := exists_recognizeTraced limit line
  obtain ⟨es, hes⟩ := (RecognizerM.rule_limited (.node .query)).passage _ _ _ h
  obtain rfl : u.events.toList = es := hes.events
  have hfits : (State.start line limit).depth + nesting u.events.toList < 2 ^ 32 := by
    rw [htraced] at hdepth
    show 0 + nesting u.events.toList < 2 ^ 32
    rwa [Nat.zero_add]
  obtain ⟨hrun, hu⟩ := (rule_mirrored hline (.node .query)).run _ _ _ _
    (Reader.standsIn_ofString line) h hes hfits
  obtain ⟨v, hv, hevents⟩ := parse_run hline hrun hu
  rw [recognizeTraced, hv, htraced, ← hevents]

end Checked
end BoolQuery
