/-
# The commands agree

`check`, `tree` and `trace` go over the lines of an input by themselves, and each tells in its own
way what becomes of a line:

| | a line that is a query | any other line |
| --- | --- | --- |
| `check` | the verdict `true` | the verdict, and if asked for an explanation |
| `tree` | its tree | an explanation |
| `trace` | a trace, a separator, the verdict | a trace, a separator, the verdict |

They never differ about which lines are queries, whatever else they are asked for: a trace observes
the attempt and does not disturb it.
-/

import BoolQuery.Command.Run
import BoolQuery.Proofs.Listings.ReadBack
import BoolQuery.Proofs.Observation

namespace BoolQuery

open Text Report

/-! ### Verdicts -/

/-- A verdict is one line, and the verdict on a query is no other verdict. -/
theorem Rejection.message_plain (why : Rejection) :
    Unbroken ("false: " ++ why.message) ∧ "false: " ++ why.message ≠ "true" := by
  cases why <;> simp only [message] <;> decide

/-- No verdict holds a line feed. -/
theorem unbroken_verdict {α : Type} (result : Except Rejection α) : Unbroken (verdict result) := by
  cases result with
  | ok a =>
    have htrue : Unbroken "true" := by decide
    exact htrue
  | error why => exact why.message_plain.1

/-- The verdict is `true` exactly on acceptance. -/
theorem verdict_eq_true_iff {α : Type} {result : Except Rejection α} :
    verdict result = "true" ↔ ∃ a, result = .ok a := by
  cases result with
  | ok a => exact ⟨fun _ => ⟨a, rfl⟩, fun _ => rfl⟩
  | error why => exact ⟨fun h => absurd h why.message_plain.2, fun ⟨_, h⟩ => nomatch h⟩

namespace Command

/-! ### Outputs one after the other -/

namespace Output

/-- Outputs are joined on both streams, and one line that is refused is enough. -/
theorem foldl_append (outs : List Output) (o : Output) :
    outs.foldl append o =
      ⟨o.stdout ++ String.join (outs.map stdout), o.stderr ++ String.join (outs.map stderr),
        o.accepted && outs.all accepted⟩ := by
  induction outs generalizing o with
  | nil => simp
  | cons out outs ih =>
    rw [List.foldl_cons, ih]
    simp [append, String.append_assoc, Bool.and_assoc]

end Output

namespace Task

variable (task : Task) (outTerminal errTerminal : Bool) (input : Input)

/-- What a command writes is what it writes about each line, in order. -/
theorem run_eq :
    task.run outTerminal errTerminal input =
      ⟨String.join (input.lines.map fun line => (task.line outTerminal errTerminal line).stdout),
        String.join (input.lines.map fun line => (task.line outTerminal errTerminal line).stderr),
        input.lines.all fun line => (task.line outTerminal errTerminal line).accepted⟩ := by
  simp [run, Output.foldl_append, Output.empty, List.map_map, Function.comp_def, List.all_map]

end Task

/-! ### Queries and other lines -/

/-- A line that is no query, and why not. -/
def rejection? (limit : Option Nat) (line : String) : Option (String × Rejection) :=
  match recognize limit line with
  | .ok _ => none
  | .error why => some (line, why)

/-- The trees of the lines that are queries. -/
def Input.trees (limit : Option Nat) (input : Input) : List Tree :=
  input.lines.filterMap fun line => (recognize limit line).toOption

/-- The lines that are no queries, and why not. -/
def Input.rejections (limit : Option Nat) (input : Input) : List (String × Rejection) :=
  input.lines.filterMap (rejection? limit)

/-- What is written to explain that a line is no query. -/
def explanation (coloured : Bool) : String × Rejection → String
  | (line, why) => why.render coloured line ++ "\n"

/-- The explanations of the lines that are no queries. -/
def Input.explanations (limit : Option Nat) (input : Input) (coloured : Bool) : String :=
  String.join ((input.rejections limit).map (explanation coloured))

/-- Texts that some of the items do not have. -/
theorem join_filterMap {α β : Type} {f : α → Option β} {text : β → String} {whole : α → String}
    (h : ∀ a, whole a = ((f a).map text).getD "") (as : List α) :
    String.join (as.map whole) = String.join ((as.filterMap f).map text) := by
  induction as with
  | nil => rfl
  | cons a as ih =>
    rw [List.map_cons, String.join_cons, ih, h, List.filterMap_cons]
    cases f a with
    | none => simp
    | some b => simp

/-- Any number of empty texts join to the empty one. -/
theorem join_map_empty {α : Type} (as : List α) : String.join (as.map fun _ => "") = "" := by
  induction as with
  | nil => rfl
  | cons a as ih => rw [List.map_cons, String.join_cons, ih, String.append_empty]

/-- The lines of a kind, and what is told of them. -/
theorem map_filter_eq {α β γ : Type} {p : α → Bool} {whole : α → γ} {f : α → Option β}
    {part : β → γ} (h : ∀ a, (if p a then some (whole a) else none) = (f a).map part)
    (as : List α) : (as.filter p).map whole = (as.filterMap f).map part := by
  rw [← List.filterMap_eq_map, List.filterMap_filter, List.map_filterMap]
  exact List.filterMap_congr fun a _ => h a

section

variable (limit : Option Nat) (input : Input)

/-- The lines with the verdict `true` are those that have trees. -/
theorem Input.map_trees :
    (input.lines.filter fun line => verdict (recognize limit line) = "true").map (recognize limit) =
      (input.trees limit).map .ok := by
  refine map_filter_eq (fun line => ?_) _
  cases recognize limit line with
  | ok root => simp [verdict, Except.toOption]
  | error why => simp [verdict_eq_true_iff, Except.toOption]

/-- The lines with any other verdict are those that are rejected. -/
theorem Input.map_rejections :
    (input.lines.filter fun line => verdict (recognize limit line) ≠ "true").map
        (fun line => (line, recognize limit line)) =
      (input.rejections limit).map fun (line, why) => (line, .error why) := by
  refine map_filter_eq (fun line => ?_) _
  unfold rejection?
  cases recognize limit line with
  | ok root => simp [verdict]
  | error why => simp [verdict_eq_true_iff]

end

/-! ### What each command writes -/

section

variable (limit : Option Nat) (line : String)

/-- What `check` writes for one line, in terms of the result of recognizing it. -/
theorem checkLine_eq (explain coloured : Bool) :
    checkLine explain coloured limit line =
      ⟨verdict (recognize limit line) ++ "\n",
        if explain then ((rejection? limit line).map (explanation coloured)).getD "" else "",
        (recognize limit line).isOk⟩ := by
  unfold checkLine rejection?
  cases recognize limit line with
  | ok root => cases explain <;> rfl
  | error why => cases explain <;> rfl

/-- What `tree` writes for one line, in terms of the result of recognizing it. -/
theorem treeLine_eq (style : TreeStyle) (coloured : Bool) :
    treeLine style coloured limit line =
      ⟨((recognize limit line).toOption.map style.dump).getD "",
        ((rejection? limit line).map (explanation coloured)).getD "",
        (recognize limit line).isOk⟩ := by
  unfold treeLine rejection?
  cases recognize limit line <;> rfl

end

section

variable (limit : Option Nat) (input : Input) (colour : ColourChoice)
variable (outTerminal errTerminal : Bool)

/-- The whole run of `check`: a verdict for every line, an explanation for every rejected one when
asked for, and success when every line is accepted. -/
theorem check_run (explain : Bool) :
    (Task.check explain ⟨colour, limit⟩).run outTerminal errTerminal input =
      ⟨String.join ((input.lines.map fun line => verdict (recognize limit line)).map (· ++ "\n")),
        if explain then input.explanations limit (colour.resolve errTerminal) else "",
        input.lines.all fun line => (recognize limit line).isOk⟩ := by
  rw [Task.run_eq]
  simp only [Task.line, checkLine_eq, List.map_map, Function.comp_def]
  cases explain with
  | true =>
    simp only [if_true]
    rw [join_filterMap fun _ => rfl]
    rfl
  | false =>
    simp only [Bool.false_eq_true, if_false]
    rw [join_map_empty]

/-- The whole run of `tree`: a listing for every accepted line and an explanation for every rejected
one. -/
theorem tree_run (raw spans : Bool) :
    (Task.tree raw spans ⟨colour, limit⟩).run outTerminal errTerminal input =
      ⟨String.join ((input.trees limit).map (TreeStyle.mk raw spans).dump),
        input.explanations limit (colour.resolve errTerminal),
        input.lines.all fun line => (recognize limit line).isOk⟩ := by
  rw [Task.run_eq]
  simp only [Task.line, treeLine_eq]
  rw [join_filterMap fun _ => rfl, join_filterMap fun _ => rfl]
  rfl

/-- The whole run of `trace`: the events of every line, then its end, and an explanation for every
rejected one. -/
theorem trace_run (verbose : Bool) :
    let style : TraceStyle := ⟨verbose, .of (colour.resolve outTerminal)⟩
    (Task.trace verbose ⟨colour, limit⟩).run outTerminal errTerminal input =
      ⟨String.join (input.lines.map fun line =>
          (Trace.empty.recordAll style (recognizeTraced limit line).2).dump ++
            separator style.palette ++ "\n" ++ verdict (recognize limit line) ++ "\n"),
        "",
        input.lines.all fun line => (recognize limit line).isOk⟩ := by
  rw [Task.run_eq]
  simp only [Task.line, traceLine]
  rw [join_map_empty]
  rfl

end

/-- The exit status tells if any of the lines is no query. -/
theorem exitCode_iff (limit : Option Nat) (lines : List String) {o : Output}
    (ho : o.accepted = lines.all fun line => (recognize limit line).isOk) :
    (o.exitCode = 1 ↔ ∃ line ∈ lines, ∃ why, recognize limit line = .error why) ∧
      (o.exitCode = 0 ↔ ∀ line ∈ lines, ∃ root, recognize limit line = .ok root) := by
  have hok : (lines.all fun line => (recognize limit line).isOk) = true ↔
      ∀ line ∈ lines, ∃ root, recognize limit line = .ok root := by
    rw [List.all_eq_true]
    refine forall₂_congr fun line _ => ?_
    cases recognize limit line <;> simp [Except.isOk, Except.toBool]
  have herror : (lines.all fun line => (recognize limit line).isOk) = false ↔
      ∃ line ∈ lines, ∃ why, recognize limit line = .error why := by
    rw [List.all_eq_false]
    refine exists_congr fun line => and_congr_right fun _ => ?_
    cases recognize limit line <;> simp [Except.isOk, Except.toBool]
  rw [← hok, ← herror, Output.exitCode, ho]
  cases lines.all fun line => (recognize limit line).isOk <;> simp

/-! ### All commands -/

/-- **The commands agree.** Run on the same input under the same limit, whatever else they are asked
for, `check`, `tree` and `trace` have the same exit status, which is 1 if and only if some line is
no query. `check` writes one verdict for each line. `trace` writes for each line its trace, a
separator and the same verdict, which is not changed by what an observer was told. `tree` writes the
trees of exactly the lines with the verdict `true`, and of all other lines the explanations that
`check` writes as well if it is asked to. -/
theorem commands_agree (limit : Option Nat) (input : Input)
    (checkColour treeColour traceColour : ColourChoice)
    (explain raw spans verbose outTerminal errTerminal : Bool) :
    let run (task : Task) := task.run outTerminal errTerminal input
    let check := run (.check explain ⟨checkColour, limit⟩)
    let tree := run (.tree raw spans ⟨treeColour, limit⟩)
    let trace := run (.trace verbose ⟨traceColour, limit⟩)
    let verdictOn (line : String) := verdict (recognize limit line)
    let style : TraceStyle := ⟨verbose, .of (traceColour.resolve outTerminal)⟩
    (tree.exitCode = check.exitCode ∧ trace.exitCode = check.exitCode ∧
      (check.exitCode = 1 ↔ ∃ line ∈ input.lines, ∃ why, recognize limit line = .error why) ∧
      (check.exitCode = 0 ↔ ∀ line ∈ input.lines, ∃ root, recognize limit line = .ok root)) ∧
    (check.stdout = String.join ((input.lines.map verdictOn).map (· ++ "\n")) ∧
      LineRule.stream.lines check.stdout = input.lines.map verdictOn) ∧
    ((∀ seen line, ((Recognizer.State.start line limit).told seen).finish.1 = recognize limit line) ∧
      trace.stdout = String.join (input.lines.map fun line =>
        (Trace.empty.recordAll style (recognizeTraced limit line).2).dump ++
          separator style.palette ++ "\n" ++ verdictOn line ++ "\n")) ∧
    ((input.lines.filter fun line => verdictOn line = "true").map (recognize limit) =
        (input.trees limit).map .ok ∧
      tree.stdout = String.join ((input.trees limit).map (TreeStyle.mk raw spans).dump)) ∧
    (input.lines.filter fun line => verdictOn line ≠ "true").map
        (fun line => (line, recognize limit line)) =
      (input.rejections limit).map (fun (line, why) => (line, .error why)) ∧
    tree.stderr = input.explanations limit (treeColour.resolve errTerminal) ∧
    check.stderr =
      (if explain then input.explanations limit (checkColour.resolve errTerminal) else "") ∧
    (run (.check true ⟨treeColour, limit⟩)).stderr = tree.stderr := by
  intro run check tree trace verdictOn style
  have hcheck : check = _ := check_run limit input checkColour outTerminal errTerminal explain
  have htree : tree = _ := tree_run limit input treeColour outTerminal errTerminal raw spans
  have htrace : trace = _ := trace_run limit input traceColour outTerminal errTerminal verbose
  have hexplained : run (.check true ⟨treeColour, limit⟩) = _ :=
    check_run limit input treeColour outTerminal errTerminal true
  have hstdout : check.stdout = String.join ((input.lines.map verdictOn).map (· ++ "\n")) := by
    rw [hcheck]
  have hlines : LineRule.stream.lines check.stdout = input.lines.map verdictOn := by
    rw [hstdout]
    refine lines_join fun l hl => ?_
    obtain ⟨line, -, rfl⟩ := List.mem_map.1 hl
    exact unbroken_verdict _
  refine ⟨⟨?_, ?_, exitCode_iff limit input.lines (by rw [hcheck])⟩, ⟨hstdout, hlines⟩,
    ⟨fun seen line => (finish_told seen limit line).1, by rw [htrace]⟩,
    ⟨input.map_trees limit, by rw [htree]⟩, input.map_rejections limit, by rw [htree],
    by rw [hcheck], ?_⟩
  · rw [htree, hcheck, Output.exitCode, Output.exitCode]
  · rw [htrace, hcheck, Output.exitCode, Output.exitCode]
  · rw [hexplained, htree]
    rfl

end Command
end BoolQuery
