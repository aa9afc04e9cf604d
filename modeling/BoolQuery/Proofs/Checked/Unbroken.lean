/-
# Nothing breaks off

Whatever is done with a line is done with checks as well: its tokens are listed, it is recognized,
what an observer saw is traced, the tree of an accepted line is stored and listed, and the place
that a rejection points at is marked. None of it breaks off, and all of it comes to the same
(`never_breaks_off`).

| what is asked of the line | what for |
| --- | --- |
| less than `2 ^ 32` bytes | every offset fits |
| a limit below `2 ^ 32` | the depth fits, as the limit bounds it |
| or no limit, and less than `2 ^ 30 - 2` opening parentheses | each of them costs a depth of four |
-/

import BoolQuery.Proofs.Checked.Listing
import BoolQuery.Proofs.Checked.Running
import BoolQuery.Proofs.Nesting.Height
import BoolQuery.Proofs.Nesting.Traced
import BoolQuery.Proofs.Pointing

namespace BoolQuery

open Recognizer Report

/-! ### Checked traces -/

namespace Checked

/-- Adds an event to a trace. -/
def record (style : TraceStyle) (trace : Trace) (event : Event) : Except Breach Trace :=
  let recorded := trace.record style event
  if recorded.depth < 2 ^ 32 then .ok recorded else .error (.depth recorded.depth)

/-- Adds events to a trace, in order. -/
def recordAll (style : TraceStyle) (trace : Trace) (events : List Event) : Except Breach Trace :=
  events.foldlM (record style) trace

/-- A trace of events that are nested like brackets is as deep as the productions that are open. -/
theorem recordAll_eq (style : TraceStyle) {trace : Trace} {es : List Event}
    {stack stack' : List Kind} (h : stackAfter stack es = some stack')
    (hdepth : trace.depth = stack.length)
    (hfits : stack.length + nesting es < 2 ^ 32) :
    recordAll style trace es = .ok (trace.recordAll style es) := by
  induction es generalizing trace stack with
  | nil => rfl
  | cons e es ih =>
    rw [stackAfter_cons, Option.bind_eq_some_iff] at h
    obtain ⟨behind, he, hes⟩ := h
    have hlength := length_onto he
    rw [nesting, crest_cons, ← nesting] at hfits
    have hbehind : (trace.record style e).depth = behind.length := by
      rw [← Nat.zero_add stack.length] at hdepth
      rw [Trace.depth_record style he hdepth, Nat.zero_add]
    have hstep : record style trace e = .ok (trace.record style e) := by
      refine if_pos ?_
      rw [hbehind]
      omega
    rw [recordAll, List.foldlM_cons, hstep]
    exact ih hes hbehind (by omega)

end Checked

/-! ### How deep a line gets -/

open Lexicon in
/-- The token that opens a group is a parenthesis. -/
theorem Token.StandsBefore.text_of_parenOpen {t : Token} {after : List Char}
    (h : t.StandsBefore after) (hk : t.kind = .token .parenOpen) : t.text.toList = ['('] := by
  obtain ⟨r, hr, htaken, -, hpromote⟩ := iff_rule.1 h
  have hrule : r.1 = .parenOpen := by
    have hkind : promote r.1 t.text.toList after = .parenOpen :=
      Kind.token.inj (hpromote.symm.trans hk)
    rcases promote_cases r.1 t.text.toList after with hsame | hkw | hkw
    · exact hsame.symm.trans hkind
    · rw [hkw] at hkind
      cases hkind
    · rw [hkw] at hkind
      cases hkind
  simp only [rules, List.mem_cons, List.not_mem_nil, or_false] at hr
  rcases hr with rfl | rfl | rfl | rfl | rfl | rfl | rfl | rfl
  case inr.inr.inl => exact htaken
  all_goals cases hrule

open RecognizerM in
/-- Tokens open no more groups than there are parentheses in their texts. -/
theorem openings_le_count {after : List Char} {ts : List Token} (h : Seamed after ts) :
    openings ts ≤ (Token.joined ts).toList.count '(' := by
  induction ts with
  | nil => exact Nat.zero_le _
  | cons t ts ih =>
    have hts := ih h.2
    rw [Token.toList_joined] at hts ⊢
    rw [openings, List.countP_cons, ← openings, List.flatMap_cons, List.count_append]
    split
    · rename_i hk
      rw [h.1.text_of_parenOpen (of_decide_eq_true hk), List.count_singleton_self]
      omega
    · omega

open RecognizerM in
/-- A line opens no more groups at once than it has parentheses that open one. -/
theorem openGroups_le_count (line : String) : openGroups (lex line) ≤ line.toList.count '(' := by
  have hcut : Cut 0 line.toList (lex line) := Reader.cut_drain line.toList 0
  obtain ⟨ts, last, hlex, -, -, -, hlast⟩ := hcut.exists_last
  obtain ⟨after, hline, -, hseamed, -⟩ := exists_seamed hlex (List.cons_ne_nil last [])
  have hzero : openings [last] = 0 := by
    rcases hlast with ⟨hk, -⟩ | ⟨hk, -⟩ <;> simp [openings, hk]
  calc openGroups (lex line)
      ≤ openings (lex line) := crest_le_countP
    _ = openings ts := by rw [hlex, openings, List.countP_append, ← openings, ← openings, hzero,
          Nat.add_zero]
    _ ≤ (Token.joined ts).toList.count '(' := openings_le_count hseamed
    _ ≤ line.toList.count '(' := by
        rw [hline, List.count_append]
        exact Nat.le_add_right ..

/-- The depth fits into 32 bits: the limit bounds it, and without one the parentheses do. -/
theorem nesting_lt {limit : Option Nat} {line : String} (hlimit : ∀ n ∈ limit, n < 2 ^ 32)
    (hopen : limit = none → line.toList.count '(' < 2 ^ 30 - 2) :
    nesting (recognizeTraced limit line).2 < 2 ^ 32 := by
  cases limit with
  | some limit =>
    exact (nesting_recognizeTraced_some_le limit line).trans_lt (hlimit limit rfl)
  | none =>
    have hcount := hopen rfl
    have hgroups := openGroups_le_count line
    have hnesting := nesting_le_openGroups line
    omega

/-! ### Nothing breaks off -/

/-- **Nothing breaks off.** In a line of less than `2 ^ 32` bytes, under a limit below `2 ^ 32` or,
without one, with less than `2 ^ 30 - 2` opening parentheses, all that is done with the line is done
with checks as well and comes to the same: listing its tokens, recognizing it, tracing what an
observer saw and, if it is accepted, storing and listing its tree. If it is rejected at a place,
that place is one that can be marked. -/
theorem never_breaks_off {limit : Option Nat} {line : String}
    (hline : Text.bytes line.toList < 2 ^ 32) (hlimit : ∀ n ∈ limit, n < 2 ^ 32)
    (hopen : limit = none → line.toList.count '(' < 2 ^ 30 - 2) :
    Checked.lex line = .ok (lex line) ∧
    Checked.recognizeTraced limit line = .ok (recognizeTraced limit line) ∧
    (∀ style, Checked.recordAll style .empty (recognizeTraced limit line).2 =
      .ok (Trace.empty.recordAll style (recognizeTraced limit line).2)) ∧
    (∀ root, recognize limit line = .ok root →
      ∀ style, Checked.dump style root = .ok (style.dump root)) ∧
    ∀ why, recognize limit line = .error why → ∀ span, why.span? = some span →
      ∃ range, Snippet.aim? line.toList span = some range := by
  have hdepth := nesting_lt hlimit hopen
  refine ⟨Checked.lex_eq hline, Checked.recognizeTraced_eq hline hdepth, fun style => ?_,
    fun root hroot style => ?_, fun why hwhy span hspan => ?_⟩
  · obtain ⟨root?, s, es, htraced, hshows, -⟩ := exists_shows limit line
    rw [htraced] at hdepth ⊢
    refine Checked.recordAll_eq style (hshows.bracketed []) rfl ?_
    show 0 + nesting es < 2 ^ 32
    rwa [Nat.zero_add]
  · have hfree := recognize_of_limited hroot
    obtain ⟨-, hd, -⟩ := isDerivation_of_recognize hfree
    obtain ⟨-, -, htext⟩ := seamed_of_recognize hfree
    refine Checked.dump_eq style hd ?_
    rwa [Tree.extent_eq, Tree.text, htext]
  · obtain ⟨t, ht, rfl, -⟩ := exists_mem_lex_of_pointing hwhy hspan
    obtain ⟨range, -, haim, -⟩ := exists_aim_of_mem_lex ht
    exact ⟨range, haim⟩

/-- The tree of `é OR -ß` is listed with checks, whatever is asked for, and so is all that is done
with `é (€`, where a group is opened in front of a character that begins no token. -/
theorem never_breaks_off_accented :
    recognize (some 6) "é OR -ß" = .ok accentedChoice ∧
      (∀ style, Checked.dump style accentedChoice = .ok (style.dump accentedChoice)) ∧
      Checked.lex "é (€" = .ok (lex "é (€") ∧
      Checked.recognizeTraced none "é (€" = .ok (recognizeTraced none "é (€") := by
  have h : recognize (some 6) "é OR -ß" = .ok accentedChoice := by decide +kernel
  have hlimit : ∀ n ∈ some 6, n < 2 ^ 32 := by simp
  have hbytes : Text.bytes "é OR -ß".toList < 2 ^ 32 := by decide +kernel
  obtain ⟨-, -, -, hdump, -⟩ := never_breaks_off hbytes hlimit nofun
  have hopen : "é (€".toList.count '(' < 2 ^ 30 - 2 := by decide +kernel
  have hbytes : Text.bytes "é (€".toList < 2 ^ 32 := by decide +kernel
  have hnone : ∀ n ∈ (none : Option Nat), n < 2 ^ 32 := nofun
  obtain ⟨hlex, htraced, -⟩ := never_breaks_off hbytes hnone fun _ => hopen
  exact ⟨h, hdump accentedChoice h, hlex, htraced⟩

end BoolQuery
