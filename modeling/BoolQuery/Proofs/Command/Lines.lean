/-
# Lines from the command line and from a file

A text falls into the texts between its line feeds and what is left behind the last one. All lines
but the one for what is left are the same wherever the text comes from: a text between line feeds
without the carriage return at its end, if it has one. For what is left, the two rules differ:

| behind the last line feed | text given on the command line | file or standard input |
| --- | --- | --- |
| nothing | an empty line | no line |
| a text | without a carriage return at its end | as it is |

For a file that is the same as to cut the text behind each line feed and to drop the terminators,
where a carriage return alone is none (`stream_split_eq`).
-/

import BoolQuery.Command.Input
import Mathlib.Data.List.Forall2

namespace BoolQuery
namespace Text

/-! ### Between line feeds -/

section

variable {sep : Char}

/-- A text is made of its pieces, with the separator behind all but the last of them. -/
theorem exists_pieces (sep : Char) (cs : List Char) : ∃ init last,
    pieces sep cs = init ++ [last] ∧ cs = init.flatMap (· ++ [sep]) ++ last ∧
      ∀ p ∈ init ++ [last], sep ∉ p := by
  induction cs with
  | nil => exact ⟨[], [], rfl, rfl, by simp⟩
  | cons c cs ih =>
    obtain ⟨init, last, hpieces, hcs, hnone⟩ := ih
    rw [pieces]
    split
    · rename_i hc
      subst hc
      refine ⟨[] :: init, last, by rw [hpieces]; rfl, by simp [hcs], ?_⟩
      rw [List.cons_append, List.forall_mem_cons]
      exact ⟨List.not_mem_nil, hnone⟩
    · rename_i hc
      cases init with
      | nil =>
        refine ⟨[], c :: last, by rw [hpieces]; rfl, by simp [hcs], ?_⟩
        simpa [Ne.symm hc] using hnone
      | cons p ps =>
        refine ⟨(c :: p) :: ps, last, by rw [hpieces]; rfl, by simp [hcs], ?_⟩
        simpa [Ne.symm hc] using hnone

/-- The text cut behind each separator. Nothing behind the last one is no piece. -/
def splitAfter (sep : Char) : List Char → List (List Char)
  | [] => []
  | c :: cs =>
    if c = sep then [c] :: splitAfter sep cs
    else match splitAfter sep cs with
      | [] => [[c]]
      | p :: ps => (c :: p) :: ps

/-- A text without the separator is one piece, or none when it is empty. -/
theorem splitAfter_of_not_mem {l : List Char} (hl : sep ∉ l) :
    splitAfter sep l = if l = [] then [] else [l] := by
  induction l with
  | nil => rfl
  | cons c l ih =>
    rw [List.mem_cons, not_or] at hl
    rw [splitAfter, if_neg (Ne.symm hl.1), ih hl.2]
    cases l <;> rfl

/-- The first separator ends the first piece. -/
theorem splitAfter_append {l : List Char} (hl : sep ∉ l) (cs : List Char) :
    splitAfter sep (l ++ sep :: cs) = (l ++ [sep]) :: splitAfter sep cs := by
  induction l with
  | nil => simp [splitAfter]
  | cons c l ih =>
    rw [List.mem_cons, not_or] at hl
    simp [splitAfter, ih hl.2, Ne.symm hl.1]

/-- Pieces without the separator, each but the last ended by one, are cut apart again; an empty last
piece is dropped. -/
theorem splitAfter_flatMap {init : List (List Char)} {last : List Char}
    (hnone : ∀ p ∈ init ++ [last], sep ∉ p) :
    splitAfter sep (init.flatMap (· ++ [sep]) ++ last) =
      init.map (· ++ [sep]) ++ if last = [] then [] else [last] := by
  induction init with
  | nil => exact splitAfter_of_not_mem (hnone last (List.mem_singleton_self last))
  | cons p ps ih =>
    rw [List.cons_append, List.forall_mem_cons] at hnone
    rw [List.flatMap_cons, List.append_assoc, List.append_assoc, List.singleton_append,
      splitAfter_append hnone.1, ih hnone.2, List.map_cons, List.cons_append]

end

/-! ### Terminators -/

/-- A piece without the line feed that ends it, if one does, and then without one carriage
return. -/
def dropTerminator (p : List Char) : List Char :=
  if p.getLast? = some '\n' then dropReturn p.dropLast else p

/-- **A stream is cut behind its line feeds**, and loses a carriage return only together with
one. -/
theorem stream_split_eq (cs : List Char) :
    LineRule.stream.split cs = (splitAfter '\n' cs).map dropTerminator := by
  obtain ⟨init, last, hpieces, rfl, hnone⟩ := exists_pieces '\n' cs
  have hinit : ∀ p, dropTerminator (p ++ ['\n']) = dropReturn p := by
    intro p
    simp [dropTerminator]
  have hlast : dropTerminator last = last := by
    refine if_neg fun h => ?_
    exact hnone last (by simp) (List.mem_of_getLast? h)
  rw [splitAfter_flatMap hnone]
  simp only [LineRule.split, hpieces]
  by_cases hnil : last = [] <;> simp [hnil, hlast, hinit, Function.comp_def]

/-- The line is the text without the carriage return at its end, if it has one. -/
def Stripped (raw line : String) : Prop :=
  raw = line ++ "\r" ∨ raw = line ∧ ∀ s, raw ≠ s ++ "\r"

/-- Dropping a last carriage return leaves the stripped line. -/
theorem stripped_dropReturn (cs : List Char) :
    Stripped (String.ofList cs) (String.ofList (dropReturn cs)) := by
  unfold dropReturn
  split
  · rename_i hlast
    obtain ⟨init, rfl⟩ := List.getLast?_eq_some_iff.1 hlast
    refine .inl ?_
    rw [List.dropLast_concat, String.ofList_append]
  · rename_i hlast
    refine .inr ⟨rfl, fun s hs => hlast ?_⟩
    have hcs := congrArg String.toList hs
    rw [String.toList_ofList, String.toList_append] at hcs
    rw [hcs]
    exact List.getLast?_concat

/-- A stripped line holds no line feed that the raw one does not hold. -/
theorem Stripped.not_mem {raw line : String} (h : Stripped raw line) (hraw : '\n' ∉ raw.toList) :
    '\n' ∉ line.toList := by
  rcases h with rfl | ⟨rfl, -⟩
  · rw [String.toList_append, List.mem_append, not_or] at hraw
    exact hraw.1
  · exact hraw

/-- When no raw line holds a line feed, no stripped one does. -/
theorem not_mem_of_stripped {raws lines : List String} (h : List.Forall₂ Stripped raws lines)
    (hraws : ∀ raw ∈ raws, '\n' ∉ raw.toList) : ∀ line ∈ lines, '\n' ∉ line.toList := by
  induction h with
  | nil => exact nofun
  | cons hstripped _ ih =>
    rw [List.forall_mem_cons] at hraws ⊢
    exact ⟨hstripped.not_mem hraws.1, ih hraws.2⟩

/-- The stripped empty line is empty. -/
theorem Stripped.eq_empty {line : String} (h : Stripped "" line) : line = "" := by
  rcases h with h | ⟨h, -⟩
  · simpa using congrArg String.toList h
  · exact h.symm

/-- What stands behind the last line feed of a text is empty if and only if the text is or ends with
a line feed. -/
theorem eq_empty_iff {between : List String} {last : String} (hlast : '\n' ∉ last.toList) :
    last = "" ↔ String.join (between.map (· ++ "\n")) ++ last = "" ∨
      ∃ s, String.join (between.map (· ++ "\n")) ++ last = s ++ "\n" := by
  constructor
  · rintro rfl
    rcases List.eq_nil_or_concat between with rfl | ⟨init, b, rfl⟩
    · exact .inl rfl
    · refine .inr ⟨String.join (init.map (· ++ "\n")) ++ b, ?_⟩
      simp [String.append_assoc]
  · rintro (hempty | ⟨s, hs⟩)
    · simp_all
    · rcases List.eq_nil_or_concat last.toList with hnil | ⟨init, c, hc⟩
      · exact String.toList_eq_nil_iff.1 hnil
      · have hchars := congrArg (fun t => t.toList.getLast?) hs
        simp [hc] at hchars
        simp [hc, hchars] at hlast

end Text

open Text

namespace Command

/-- Both ways to read a text give the same lines for the texts between its line feeds. -/
theorem Input.exists_lines (text : String) : ∃ between last init i,
    text = String.join (between.map (· ++ "\n")) ++ last ∧
    (∀ b ∈ between ++ [last], '\n' ∉ b.toList) ∧
    List.Forall₂ Stripped between init ∧ Stripped last i ∧
    (Input.mk .inline text).lines = init ++ [i] ∧
    (Input.mk .stream text).lines = init ++ if last = "" then [] else [last] := by
  obtain ⟨init, last, hpieces, htext, hnone⟩ := exists_pieces '\n' text.toList
  refine ⟨init.map String.ofList, String.ofList last,
    (init.map dropReturn).map String.ofList, String.ofList (dropReturn last), ?_, ?_, ?_,
    stripped_dropReturn last, ?_, ?_⟩
  · rw [← String.toList_inj, htext, String.toList_append, String.toList_ofList, String.toList_join]
    simp [List.flatMap_map]
  · have hstrings : init.map String.ofList ++ [String.ofList last] =
        (init ++ [last]).map String.ofList := by simp
    rw [hstrings, List.forall_mem_map]
    simpa only [String.toList_ofList] using hnone
  · rw [List.map_map, List.forall₂_map_left_iff, List.forall₂_map_right_iff, List.forall₂_same]
    exact fun p _ => stripped_dropReturn p
  · simp [lines, LineRule.lines, LineRule.split, hpieces]
  · by_cases hlast : last = [] <;>
      simp [lines, LineRule.lines, LineRule.split, hpieces, hlast]

/-- **A text has the same lines on the command line and in a file, up to its end.** No line holds a
line feed. If the text is empty or ends with a line feed, the command line has one more line, which
is empty. Otherwise there are as many lines in both, all but the last are the same, and the last one
loses a carriage return at its end on the command line only. The lines in front of the last line
feed are the texts between line feeds, each without one carriage return if it ends with one. The
lines of a file are the pieces of the text cut behind each line feed, without their terminators. -/
theorem inline_stream_lines (text : String) :
    let inline := (Input.mk .inline text).lines
    let stream := (Input.mk .stream text).lines
    (∀ l ∈ inline ++ stream, '\n' ∉ l.toList) ∧
    (text = "" ∨ (∃ s, text = s ++ "\n") → inline = stream ++ [""]) ∧
    (¬(text = "" ∨ ∃ s, text = s ++ "\n") →
      ∃ init i s, inline = init ++ [i] ∧ stream = init ++ [s] ∧ Stripped s i) ∧
    (∃ between last init i, text = String.join (between.map (· ++ "\n")) ++ last ∧
      (∀ b ∈ between ++ [last], '\n' ∉ b.toList) ∧
      List.Forall₂ Stripped between init ∧ Stripped last i ∧
      inline = init ++ [i] ∧ stream = init ++ if last = "" then [] else [last]) ∧
    stream = ((splitAfter '\n' text.toList).map dropTerminator).map String.ofList := by
  intro inline stream
  obtain ⟨between, last, init, i, htext, hnone, hinit, hi, hinline, hstream⟩ :=
    Input.exists_lines text
  change inline = _ at hinline
  change stream = _ at hstream
  obtain ⟨hbetween, hlast⟩ := List.forall_mem_append.1 hnone
  rw [List.forall_mem_singleton] at hlast
  have hend := @eq_empty_iff between last hlast
  rw [← htext] at hend
  refine ⟨?_, fun h => ?_, fun h => ?_, ?_, ?_⟩
  · have hlines := not_mem_of_stripped hinit hbetween
    rw [hinline, hstream]
    simp only [List.forall_mem_append, List.forall_mem_singleton]
    refine ⟨⟨hlines, hi.not_mem hlast⟩, hlines, ?_⟩
    split
    · exact nofun
    · exact List.forall_mem_singleton.2 hlast
  · obtain rfl := hend.2 h
    rw [hinline, hstream, hi.eq_empty]
    simp
  · rw [if_neg fun hempty => h (hend.1 hempty)] at hstream
    exact ⟨init, i, last, hinline, hstream, hi⟩
  · exact ⟨between, last, init, i, htext, hnone, hinit, hi, hinline, hstream⟩
  · rw [← stream_split_eq]
    rfl

/-- Of two carriage returns in front of a line feed one is dropped, and of the one at the end it
depends on where the text comes from. -/
example : (Input.mk .inline "a\r\r\nb\r").lines = ["a\r", "b"] ∧
    (Input.mk .stream "a\r\r\nb\r").lines = ["a\r", "b\r"] := by
  decide

end Command
end BoolQuery
