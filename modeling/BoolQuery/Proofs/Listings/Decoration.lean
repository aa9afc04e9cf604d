/-
# Settings of traces only decorate

A trace is written in colour or not, and with all there is to tell or not. Whatever events it is
written for, the settings change how a line looks and which lines there are, and nothing else:

| setting | the other trace |
| --- | --- |
| in colour | without the sequences of the palette, which stand around names, texts and `failed` |
| verbose | without the lines about tokens that are given back, and without the texts that were matched |

Texts of the line are quoted, so that they have no controls (`Quoted.seen_quote`): nothing in them
is taken for a sequence of the palette or ends a line of the trace.
-/

import BoolQuery.Proofs.Listings.Rows
import BoolQuery.Report.Trace

namespace BoolQuery

open Lexicon Text

/-! ### Texts without controls -/

/-- Controls among characters are found by going through them. -/
instance Text.decidableForallSeen (cs : List Char) : Decidable (∀ c ∈ cs, ' ' ≤ c) :=
  decidable_of_iff (cs.all fun c => ' ' ≤ c) (by simp)

/-- No character of the text is below the space. -/
def Text.Seen (s : String) : Prop := ∀ c ∈ s.toList, ' ' ≤ c

/-- Controls in a text are found among its characters. -/
instance (s : String) : Decidable (Seen s) := inferInstanceAs (Decidable (∀ c ∈ s.toList, ' ' ≤ c))

/-- Texts without controls are put together to such texts. -/
theorem Text.Seen.append {s t : String} (hs : Seen s) (ht : Seen t) : Seen (s ++ t) := by
  intro c hc
  rw [String.toList_append, List.mem_append] at hc
  exact hc.elim (hs c) (ht c)

/-- The line breaks are controls. -/
theorem Text.Seen.unbroken {s : String} (h : Seen s) : Unbroken s := by
  constructor <;> exact fun hc => absurd (h _ hc) (by decide)

/-- Of the characters below the space all are shown as escapes. -/
theorem Text.Quoted.le_of_not_concealed {c : Char} (hc : isConcealed c = false) : ' ' ≤ c := by
  by_contra hlt
  have hbelow : c.toNat ≤ 0x1F := by
    rw [Char.le_def, UInt32.le_iff_toNat_le] at hlt
    exact Nat.le_of_lt_succ (Nat.lt_of_not_le hlt)
  have hcontrol : Unicode.unprintable.contains c = true :=
    Unicode.CharSet.contains_iff.2 ⟨(0x0, 0x1F), .head _, Nat.zero_le _, hbelow⟩
  simp [isConcealed, hlt, hcontrol] at hc

/-- Hexadecimal digits are no controls. -/
theorem Text.Quoted.space_le_digitChar : ∀ d < 16, ' ' ≤ Nat.digitChar d := by
  decide

/-- An escape is made of a backslash, letters, digits and brackets. -/
theorem Text.Quoted.seen_escape (c : Char) : ∀ d ∈ escape c, ' ' ≤ d := by
  rw [escape_eq, escapeWith]
  split
  · rename_i e he
    have hmem := List.mem_of_find?_eq_some he
    simp only [named, List.mem_cons, List.not_mem_nil, or_false] at hmem
    rcases hmem with rfl | rfl | rfl | rfl | rfl | rfl <;> decide
  · split
    · simp only [List.cons_append, List.forall_mem_cons, List.forall_mem_append]
      refine ⟨by decide, by decide, by decide, fun d hd => ?_, by decide⟩
      obtain ⟨n, hn, rfl⟩ := mem_toDigits hd
      exact space_le_digitChar n hn
    · rename_i hc
      exact List.forall_mem_singleton.2 (le_of_not_concealed (by simpa using hc))

/-- A quoted text has no controls. -/
theorem Text.Quoted.seen_quote (s : String) : Seen (quote s) := by
  unfold Seen quote
  rw [String.toList_ofList]
  simp only [List.cons_append, List.forall_mem_cons, List.forall_mem_append,
    List.forall_mem_flatMap]
  exact ⟨by decide, fun c _ => seen_escape c, by decide⟩

/-- Names of kinds have no controls. -/
theorem seen_name (k : Kind) : Seen k.name := by
  cases k with
  | token k => cases k <;> decide
  | node k => cases k <;> decide
  | endMark => decide

/-- Numbers have no controls. -/
theorem seen_toString (n : Nat) : Seen (toString n) := by
  intro c hc
  have hdigit := isDigit_of_mem_toString hc
  rw [Char.isDigit, Bool.and_eq_true, decide_eq_true_iff] at hdigit
  exact Char.le_trans (by decide : ' ' ≤ '0') hdigit.1

namespace Report

/-! ### Colours -/

namespace Palette

/-- The sequences of the palette. -/
def codes (p : Palette) : List (List Char) :=
  ([p.blue, p.green, p.red, p.dim, p.reset].map String.toList).filter (· ≠ [])

/-- The characters without the sequences of the palette among them. -/
def eraseFrom (p : Palette) : List Char → List Char
  | [] => []
  | c :: cs =>
    match p.codes.find? fun code => code.isPrefixOf (c :: cs) with
    | some code => p.eraseFrom (cs.drop (code.length - 1))
    | none => c :: p.eraseFrom cs
termination_by cs => cs.length

/-- The line without the sequences of the palette. -/
def erase (p : Palette) (line : String) : String := String.ofList (p.eraseFrom line.toList)

/-- The plain palette has no sequences that could be erased. -/
theorem eraseFrom_plain (cs : List Char) : plain.eraseFrom cs = cs := by
  have hcodes : plain.codes = [] := by decide
  induction cs with
  | nil => rw [eraseFrom]
  | cons c cs ih => rw [eraseFrom, hcodes, List.find?_nil, ih]

/-- No sequence begins with another one. -/
theorem codes_prefix_free : ∀ a ∈ coloured.codes, ∀ b ∈ coloured.codes, a <+: b → a = b := by
  decide

/-- Where a sequence stands no other one is found. -/
theorem find?_code {code : List Char} (hcode : code ∈ coloured.codes) (cs : List Char) :
    coloured.codes.find? (fun other => other.isPrefixOf (code ++ cs)) = some code := by
  cases hfind : coloured.codes.find? fun other => other.isPrefixOf (code ++ cs) with
  | none =>
    have hmiss := List.find?_eq_none.1 hfind code hcode
    simp at hmiss
  | some other =>
    have hother := List.mem_of_find?_eq_some hfind
    have hprefix : other <+: code ++ cs := by simpa using List.find?_some hfind
    rcases List.prefix_or_prefix_of_prefix hprefix (List.prefix_append code cs) with h | h
    · rw [codes_prefix_free other hother code hcode h]
    · rw [codes_prefix_free code hcode other hother h]

/-- A sequence is erased. -/
theorem eraseFrom_code {code : List Char} (hcode : code ∈ coloured.codes) (cs : List Char) :
    coloured.eraseFrom (code ++ cs) = coloured.eraseFrom cs := by
  have hfind := find?_code hcode cs
  have hne : code ≠ [] := by
    rintro rfl
    exact absurd hcode (by decide)
  obtain ⟨c, code, rfl⟩ := List.exists_cons_of_ne_nil hne
  rw [List.cons_append] at hfind ⊢
  rw [eraseFrom, hfind]
  simp

/-- A sequence begins with a control, and so with nothing that is seen. -/
theorem head?_code : ∀ code ∈ coloured.codes, code.head? = some '\x1b' := by
  decide

/-- Characters that are no controls are kept. -/
theorem eraseFrom_seen {cs : List Char} (hcs : ∀ c ∈ cs, ' ' ≤ c) (after : List Char) :
    coloured.eraseFrom (cs ++ after) = cs ++ coloured.eraseFrom after := by
  induction cs with
  | nil => rfl
  | cons c cs ih =>
    rw [List.forall_mem_cons] at hcs
    have hmiss :
        coloured.codes.find? (fun code => code.isPrefixOf (c :: (cs ++ after))) = none := by
      rw [List.find?_eq_none]
      intro code hcode hprefix
      obtain ⟨rest, hrest⟩ := List.isPrefixOf_iff_prefix.1 hprefix
      have hhead := congrArg List.head? hrest
      rw [List.head?_append, head?_code code hcode] at hhead
      obtain rfl : '\x1b' = c := Option.some.inj hhead
      exact absurd hcs.1 (by decide)
    rw [List.cons_append, eraseFrom, hmiss, ih hcs.2]
    rfl

end Palette

/-- The first text is the second one with sequences of the palette in it. -/
inductive Tinted : String → String → Prop
  | code {code : String} (h : code.toList ∈ Palette.coloured.codes) : Tinted code ""
  | seen {s : String} (h : Seen s) : Tinted s s
  | append {s t s' t' : String} (h : Tinted s t) (h' : Tinted s' t') : Tinted (s ++ s') (t ++ t')

namespace Tinted

variable {s t : String}

/-- Erasing goes through the pieces of a text one by one. -/
theorem eraseFrom_append (h : Tinted s t) (after : List Char) :
    Palette.coloured.eraseFrom (s.toList ++ after) =
      t.toList ++ Palette.coloured.eraseFrom after := by
  induction h generalizing after with
  | code h => exact Palette.eraseFrom_code h after
  | seen h => exact Palette.eraseFrom_seen h after
  | append _ _ ih ih' => simp [List.append_assoc, ih, ih']

/-- **Without its sequences a text in colour is the plain one.** -/
theorem erase_eq (h : Tinted s t) : Palette.coloured.erase s = t := by
  have hall := h.eraseFrom_append []
  rw [List.append_nil, Palette.eraseFrom, List.append_nil] at hall
  rw [Palette.erase, hall, String.ofList_toList]

/-- The plain text has no controls. -/
theorem seen_right (h : Tinted s t) : Seen t := by
  induction h with
  | code _ => exact nofun
  | seen h => exact h
  | append _ _ ih ih' => exact ih.append ih'

/-- Sequences do not break lines. -/
theorem unbroken (h : Tinted s t) : Unbroken s := by
  induction h with
  | @code code h =>
    have hcodes : ∀ code ∈ Palette.coloured.codes, '\n' ∉ code ∧ '\r' ∉ code := by decide
    exact hcodes _ h
  | seen h => exact h.unbroken
  | append _ _ ih ih' => exact ih.append ih'

end Tinted

/-! ### What is left out of a trace that is not verbose -/

/-- What a trace that is not verbose has for a line of a verbose one: nothing for a line about
tokens that are given back, and for one about a match what stands in front of the text. -/
def terse (p : Palette) (line : String) : Option String :=
  let indentation := line.toList.takeWhile (· == ' ')
  let shown := line.toList.dropWhile (· == ' ')
  let word := shown.takeWhile (· != ' ')
  if word = (p.dim ++ "pushed").toList then none
  else if " matched".toList <+: shown.dropWhile (· != ' ') then
    some (String.ofList (indentation ++ word ++ " matched".toList))
  else some line

/-- A line is told from what stands up to the second space behind its indentation. -/
theorem terse_line (p : Palette) (depth : Nat) {word : String} (hne : word.toList ≠ [])
    (hword : ' ' ∉ word.toList) (rest : String) :
    terse p (Trace.indent depth ++ (word ++ (" " ++ rest))) =
      if word = p.dim ++ "pushed" then none
      else if "matched".toList <+: rest.toList then
        some (Trace.indent depth ++ (word ++ " matched"))
      else some (Trace.indent depth ++ (word ++ (" " ++ rest))) := by
  have hline : (Trace.indent depth ++ (word ++ (" " ++ rest))).toList =
      List.replicate (2 * depth) ' ' ++ (word.toList ++ ' ' :: rest.toList) := by
    simp [Trace.indent]
  have hindentation : (List.replicate (2 * depth) ' ' ++
      (word.toList ++ ' ' :: rest.toList)).takeWhile (· == ' ') =
        List.replicate (2 * depth) ' ' := by
    rw [takeWhile_append_eq_left]
    refine ⟨fun c hc => beq_iff_eq.2 (List.mem_replicate.1 hc).2, fun c hc => ?_⟩
    rw [List.head?_append_of_ne_nil _ hne] at hc
    rw [beq_eq_false_iff_ne]
    rintro rfl
    exact hword (List.mem_of_mem_head? hc)
  have htake : (word.toList ++ ' ' :: rest.toList).takeWhile (· != ' ') = word.toList := by
    rw [takeWhile_append_eq_left]
    refine ⟨fun c hc => bne_iff_ne.2 ?_, by simp⟩
    rintro rfl
    exact hword hc
  have hpushed : word.toList = (p.dim ++ "pushed").toList ↔ word = p.dim ++ "pushed" :=
    String.toList_inj
  have hmatched : " matched".toList <+: ' ' :: rest.toList ↔ "matched".toList <+: rest.toList :=
    List.prefix_cons_inj ' '
  rw [terse, hline, hindentation, dropWhile_append_eq_right hindentation, htake,
    dropWhile_append_eq_right htake]
  simp only [hpushed, hmatched]
  split
  · rfl
  · split
    · simp [Trace.indent, String.ofList_append]
    · rfl

/-! ### Lines about productions -/

/-- The names of productions are no part of another line than their own. -/
theorem name_of_rule (c : Bool) (k : Kind) :
    let p := Palette.of c
    let word := p.blue ++ k.name ++ p.reset
    word.toList ≠ [] ∧ ' ' ∉ word.toList ∧ word ≠ p.dim ++ "pushed" ∧
      ¬ "matched".toList <+: word.toList := by
  cases c <;> cases k with
  | token k => cases k <;> decide
  | node k => cases k <;> decide
  | endMark => decide

section

variable (c : Bool) (depth : Nat) (k : Kind)

/-- A line about a production that begins stays as it is. -/
theorem terse_enter :
    let p := Palette.of c
    let line := Trace.indent depth ++ ("Parsing " ++ p.blue ++ k.name ++ p.reset)
    terse p line = some line := by
  intro p line
  obtain ⟨-, -, -, hother⟩ := name_of_rule c k
  have hpushed : "Parsing" ≠ p.dim ++ "pushed" := by cases c <;> decide
  have hline := @terse_line p depth "Parsing" (by decide) (by decide)
    (p.blue ++ k.name ++ p.reset)
  have hparsing : "Parsing " = "Parsing" ++ " " := rfl
  rw [if_neg hpushed, if_neg hother] at hline
  simpa only [line, hparsing, String.append_assoc] using hline

/-- A line about a match loses the text, with the colours around it. -/
theorem terse_matched (text : String) :
    let p := Palette.of c
    let head := p.blue ++ k.name ++ p.reset ++ " matched"
    terse p (Trace.indent depth ++ (head ++ (" " ++ p.green ++ text ++ p.reset))) =
      some (Trace.indent depth ++ head) := by
  intro p head
  obtain ⟨hne, hword, hpushed, -⟩ := name_of_rule c k
  have hline := terse_line p depth hne hword ("matched" ++ (" " ++ p.green ++ text ++ p.reset))
  have hmatched : " matched" = " " ++ "matched" := rfl
  rw [if_neg hpushed, if_pos (by simp)] at hline
  simpa only [head, hmatched, String.append_assoc] using hline

/-- A line about a failure stays as it is, as `failed` is another word than `matched`. -/
theorem terse_failed :
    let p := Palette.of c
    let line := Trace.indent depth ++
      (p.blue ++ k.name ++ p.reset ++ " " ++ p.red ++ "failed" ++ p.reset)
    terse p line = some line := by
  intro p line
  obtain ⟨hne, hword, hpushed, -⟩ := name_of_rule c k
  have hother : ¬ "matched".toList <+: (p.red ++ "failed" ++ p.reset).toList := by
    cases c <;> decide
  have hline := terse_line p depth hne hword (p.red ++ "failed" ++ p.reset)
  rw [if_neg hpushed, if_neg hother] at hline
  simpa only [line, String.append_assoc] using hline

/-- A line about tokens that are given back is left out. -/
theorem terse_backtrack (tokens : List Token) :
    let p := Palette.of c
    terse p (Trace.indent depth ++ (p.dim ++ Trace.backtrackText tokens ++ p.reset)) = none := by
  intro p
  have hword : (p.dim ++ "pushed").toList ≠ [] ∧ ' ' ∉ (p.dim ++ "pushed").toList := by
    cases c <;> decide
  have hline := terse_line p depth hword.1 hword.2
    ("back " ++ toString tokens.length ++ (if tokens.length = 1 then " token " else " tokens ") ++
      Quoted.quote (Token.joined tokens) ++ p.reset)
  have hback : "pushed back " = "pushed" ++ " " ++ "back " := rfl
  rw [if_pos rfl] at hline
  simpa only [Trace.backtrackText, hback, String.append_assoc] using hline

end

namespace Trace

variable {t t' : Trace} {p : Palette}

/-- What holds of two traces is kept by events if it is kept by each. -/
theorem recordAll_keeps {R : Trace → Trace → Prop} {style style' : TraceStyle}
    (hstep : ∀ t t' e, R t t' → R (t.record style e) (t'.record style' e)) (h : R t t')
    (es : List Recognizer.Event) : R (t.recordAll style es) (t'.recordAll style' es) := by
  induction es generalizing t t' with
  | nil => exact h
  | cons e es ih => exact ih (hstep t t' e h)

/-! ### Colours in a trace -/

/-- A trace in colour and a plain one, indented alike and with the same lines but for the
colours. -/
structure Tints (t t' : Trace) : Prop where
  depth : t.depth = t'.depth
  lines : List.Forall₂ Tinted t.lines.toList t'.lines.toList

/-- Indentation is made of spaces. -/
theorem seen_indent (depth : Nat) : Seen (indent depth) := by
  intro c hc
  rw [indent, String.toList_ofList] at hc
  obtain rfl := (List.mem_replicate.1 hc).2
  decide

/-- What is told of tokens that are given back has their text quoted. -/
theorem seen_backtrackText (tokens : List Token) : Seen (backtrackText tokens) := by
  refine (((?_ : Seen "pushed back ").append (seen_toString _)).append ?_).append
    (Quoted.seen_quote _)
  · decide
  · split <;> decide

/-- Lines at the same indentation that differ in colour keep the traces alike. -/
theorem Tints.addLine (h : Tints t t') {l l' : String} (hl : Tinted l l') :
    Tints (t.addLine l) (t'.addLine l') where
  depth := h.depth
  lines := by
    simp only [Trace.addLine, Array.toList_push, h.depth]
    exact List.rel_append h.lines (.cons (.append (.seen (seen_indent _)) hl) .nil)

/-- Every event adds such lines to both traces, or to neither. -/
theorem Tints.record (verbose : Bool) (h : Tints t t') (e : Recognizer.Event) :
    Tints (t.record ⟨verbose, .coloured⟩ e) (t'.record ⟨verbose, .plain⟩ e) := by
  have hblue : Tinted Palette.coloured.blue "" := .code (by decide)
  have hgreen : Tinted Palette.coloured.green "" := .code (by decide)
  have hred : Tinted Palette.coloured.red "" := .code (by decide)
  have hdim : Tinted Palette.coloured.dim "" := .code (by decide)
  have hreset : Tinted Palette.coloured.reset "" := .code (by decide)
  have hname (k : Kind) : Tinted k.name k.name := .seen (seen_name k)
  cases e with
  | enter rule =>
    have hparsing : Tinted "Parsing " "Parsing " := .seen (by decide)
    have hline := h.addLine (((hparsing.append hblue).append (hname rule)).append hreset)
    exact ⟨congrArg (· + 1) hline.depth, hline.lines⟩
  | matched node =>
    have hmatched : Tinted " matched" " matched" := .seen (by decide)
    have hspace : Tinted " " " " := .seen (by decide)
    have hquote : Tinted (Quoted.quote node.text) (Quoted.quote node.text) :=
      .seen (Quoted.seen_quote _)
    have hhead := ((hblue.append (hname node.kind)).append hreset).append hmatched
    have hleft : Tints { t with depth := t.depth - 1 } { t' with depth := t'.depth - 1 } :=
      ⟨congrArg (· - 1) h.depth, h.lines⟩
    cases verbose with
    | true =>
      exact hleft.addLine (hhead.append (((hspace.append hgreen).append hquote).append hreset))
    | false =>
      have hnone : Tinted "" "" := .seen (by decide)
      exact hleft.addLine (hhead.append hnone)
  | failed rule =>
    have hspace : Tinted " " " " := .seen (by decide)
    have hfailed : Tinted "failed" "failed" := .seen (by decide)
    have hleft : Tints { t with depth := t.depth - 1 } { t' with depth := t'.depth - 1 } :=
      ⟨congrArg (· - 1) h.depth, h.lines⟩
    exact hleft.addLine ((((((hblue.append (hname rule)).append hreset).append hspace).append
      hred).append hfailed).append hreset)
  | backtrack tokens =>
    cases verbose with
    | true => exact h.addLine ((hdim.append (.seen (seen_backtrackText tokens))).append hreset)
    | false => exact h

/-- The lines in colour are the plain ones with the sequences of the palette in them. -/
theorem Tints.map_erase (h : Tints t t') :
    t.lines.toList.map (Palette.erase .coloured) = t'.lines.toList := by
  rw [← List.forall₂_eq_eq_eq, List.forall₂_map_left_iff]
  exact h.lines.imp fun _ _ hl => hl.erase_eq

/-- Every line in colour has its plain line. -/
theorem Tints.exists_plain (h : Tints t t') {l : String} (hl : l ∈ t.lines.toList) :
    ∃ l', Tinted l l' := by
  obtain ⟨i, hi, rfl⟩ := List.mem_iff_getElem.1 hl
  exact ⟨_, h.lines.get hi (h.lines.length_eq ▸ hi)⟩

/-- Every plain line has its line in colour. -/
theorem Tints.exists_coloured (h : Tints t t') {l' : String} (hl : l' ∈ t'.lines.toList) :
    ∃ l, Tinted l l' := by
  obtain ⟨i, hi, rfl⟩ := List.mem_iff_getElem.1 hl
  exact ⟨_, h.lines.get (h.lines.length_eq.symm ▸ hi) hi⟩

/-! ### What a verbose trace has besides -/

/-- A verbose trace and another one, indented alike, the second with what is left of the lines of
the first. -/
structure Abridged (p : Palette) (t t' : Trace) : Prop where
  depth : t.depth = t'.depth
  lines : t.lines.toList.filterMap (terse p) = t'.lines.toList

/-- A line and what the shorter trace has for it keep the one trace an abridgement of the other. -/
theorem Abridged.addLine (h : Abridged p t t') {l l' : String}
    (hl : terse p (indent t.depth ++ l) = some (indent t.depth ++ l')) :
    Abridged p (t.addLine l) (t'.addLine l') where
  depth := h.depth
  lines := by
    simp only [Trace.addLine, Array.toList_push, List.filterMap_append, h.lines, ← h.depth]
    rw [List.filterMap_cons_some hl, List.filterMap_nil]

/-- So does a line that the shorter trace has nothing for. -/
theorem Abridged.leaveOut (h : Abridged p t t') {l : String}
    (hl : terse p (indent t.depth ++ l) = none) : Abridged p (t.addLine l) t' where
  depth := h.depth
  lines := by
    simp only [Trace.addLine, Array.toList_push, List.filterMap_append, h.lines]
    rw [List.filterMap_cons_none hl, List.filterMap_nil, List.append_nil]

/-- Every event adds such lines. -/
theorem Abridged.record (c : Bool) (h : Abridged (.of c) t t') (e : Recognizer.Event) :
    Abridged (.of c) (t.record ⟨true, .of c⟩ e) (t'.record ⟨false, .of c⟩ e) := by
  have hleft : Abridged (.of c) { t with depth := t.depth - 1 } { t' with depth := t'.depth - 1 } :=
    ⟨congrArg (· - 1) h.depth, h.lines⟩
  cases e with
  | enter rule =>
    have hadded := h.addLine (terse_enter c t.depth rule)
    exact ⟨congrArg (· + 1) hadded.depth, hadded.lines⟩
  | matched node =>
    have hadded := hleft.addLine
      (terse_matched c (t.depth - 1) node.kind (Quoted.quote node.text))
    simpa [Trace.record] using hadded
  | failed rule => exact hleft.addLine (terse_failed c (t.depth - 1) rule)
  | backtrack tokens => exact h.leaveOut (terse_backtrack c t.depth tokens)

end Trace

/-- **Settings of a trace only decorate.** For the same events, whichever they are, the lines of the
plain trace are those of the trace in colour without the sequences of the palette, and the lines of
the trace that is not verbose are those of the verbose one without the lines about tokens that are
given back, and of the lines about matches what stands in front of the text. No line has a line
feed, no control besides the sequences of the palette, and so the lines are found again where the
whole trace is split. -/
theorem settings_only_decorate (events : List Recognizer.Event) (verbose coloured : Bool) :
    let trace (verbose coloured : Bool) :=
      Trace.empty.recordAll ⟨verbose, .of coloured⟩ events
    let lines (verbose coloured : Bool) := (trace verbose coloured).lines.toList
    (lines verbose true).map (Palette.erase .coloured) = lines verbose false ∧
    (lines true coloured).filterMap (terse (.of coloured)) = lines false coloured ∧
    (∀ l ∈ lines verbose coloured, '\n' ∉ l.toList ∧ Seen (Palette.erase (.of coloured) l)) ∧
    pieces '\n' (trace verbose coloured).dump.toList =
      (lines verbose coloured).map String.toList ++ [[]] ∧
    LineRule.stream.lines (trace verbose coloured).dump = lines verbose coloured := by
  intro trace lines
  have htints : Trace.Tints (trace verbose true) (trace verbose false) :=
    Trace.recordAll_keeps (fun _ _ e h => h.record verbose e) ⟨rfl, .nil⟩ events
  have habridged : Trace.Abridged (.of coloured) (trace true coloured) (trace false coloured) :=
    Trace.recordAll_keeps (fun _ _ e h => h.record coloured e) ⟨rfl, rfl⟩ events
  have hline : ∀ l ∈ lines verbose coloured,
      Unbroken l ∧ Seen (Palette.erase (.of coloured) l) := by
    intro l hl
    cases coloured with
    | true =>
      obtain ⟨l', hl'⟩ := htints.exists_plain hl
      exact ⟨hl'.unbroken, hl'.erase_eq ▸ hl'.seen_right⟩
    | false =>
      obtain ⟨l', hl'⟩ := htints.exists_coloured hl
      have herase : Palette.erase .plain l = l := by
        rw [Palette.erase, Palette.eraseFrom_plain, String.ofList_toList]
      exact ⟨hl'.seen_right.unbroken, herase.symm ▸ hl'.seen_right⟩
  refine ⟨htints.map_erase, habridged.lines, fun l hl => ⟨(hline l hl).1.1, (hline l hl).2⟩,
    pieces_join fun l hl => (hline l hl).1.1, lines_join fun l hl => (hline l hl).1⟩

/-- A text with a line break and with a sequence of the palette in it stays on its line. -/
example :
    (Trace.empty.recordAll ⟨true, .coloured⟩
      [.backtrack [⟨TokenKind.phrase, "\"\n\x1b[0m\"", ⟨0, 7⟩⟩]]).lines.toList.map
        (Palette.erase .coloured) =
      ["pushed back 1 token \"\\\"\\n\\u\x7b1b\x7d[0m\\\"\""] := by
  decide +kernel

end Report
end BoolQuery
