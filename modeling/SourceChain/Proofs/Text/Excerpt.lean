import Mathlib.Data.List.Basic
import SourceChain.Text.Excerpt

/-!
# What an excerpt holds

How a text falls into lines is said here by a relation, with one constructor for each way in which a
line can end (`IsLines`). Every text falls into lines in exactly one way, which is the one that
`lines` computes by cutting at line feeds (`isLines_iff`).

An excerpt is a run of these lines around the one that was asked for, with as many on each side as
were asked for or as there are (`Excerpt.IsAround`). There is one unless the place after it has no
64-bit number.

The lines of an excerpt are taken from the list without asking whether they are there. In
`slicedExcerpt` each slice and each sum is checked, and the first that is refused puts an end to the
computation. No slice ever is (`slicedExcerpt_eq`).
-/

namespace SourceChain.Text

/-! ### Lines -/

/-- How a text falls into lines. A line ends with a line feed, or with a carriage return and a line
feed, and the last one needs no end. A carriage return anywhere else is part of its line. -/
inductive IsLines : String → List String → Prop
  /-- There is no line in an empty text. -/
  | nil : IsLines "" []
  /-- The last line has no end. -/
  | last {line : String} (hne : line ≠ "") (hline : '\n' ∉ line.toList) : IsLines line [line]
  /-- The line ends with a line feed and has no carriage return before it. -/
  | feed {line rest : String} {more : List String} (hline : '\n' ∉ line.toList)
      (hreturn : line.toList.getLast? ≠ some '\r') (h : IsLines rest more) :
      IsLines (line ++ "\n" ++ rest) (line :: more)
  /-- The line ends with a carriage return and a line feed. -/
  | returnFeed {line rest : String} {more : List String} (hline : '\n' ∉ line.toList)
      (h : IsLines rest more) : IsLines (line ++ "\r\n" ++ rest) (line :: more)

@[simp]
theorem dropReturn_concat (cs : List Char) : dropReturn (cs ++ ['\r']) = cs := by
  simp [dropReturn]

theorem dropReturn_of_ne {cs : List Char} (h : cs.getLast? ≠ some '\r') : dropReturn cs = cs :=
  if_neg h

/-- A run that a line feed follows is a line, but for a carriage return at its end. -/
theorem linesOfRuns_cons {runs : List (List Char)} (h : runs ≠ []) (run : List Char) :
    linesOfRuns (run :: runs) = dropReturn run :: linesOfRuns runs := by
  rcases runs with - | ⟨next, runs⟩
  · exact absurd rfl h
  · rfl

/-- A text without a line feed is a line, unless it is empty. -/
theorem lines_of_not_mem {line : String} (hne : line ≠ "") (hline : '\n' ∉ line.toList) :
    lines line = [line] := by
  have hrun : line.toList ≠ [] := by simpa using hne
  rw [lines, List.splitOn_eq_singleton hline, linesOfRuns, if_neg hrun, List.map_singleton,
    String.ofList_toList]

/-- What stands before the first line feed is a line, and the others are those of what follows. -/
theorem lines_append_feed {run : List Char} (h : '\n' ∉ run) (rest : String) :
    lines (String.ofList (run ++ '\n' :: rest.toList)) =
      String.ofList (dropReturn run) :: lines rest := by
  rw [lines, String.toList_ofList, List.splitOn_append_cons_self_of_not_mem h,
    linesOfRuns_cons (List.splitOn_ne_nil _ _)]
  rfl

/-- However a text falls into lines, these are the ones that are computed. -/
theorem IsLines.lines_eq {text : String} {all : List String} (h : IsLines text all) :
    lines text = all := by
  induction h with
  | nil => rfl
  | last hne hline => exact lines_of_not_mem hne hline
  | @feed line rest more hline hreturn h ih =>
    have htext : line ++ "\n" ++ rest = String.ofList (line.toList ++ '\n' :: rest.toList) := by
      simp [← String.toList_inj]
    rw [htext, lines_append_feed hline, dropReturn_of_ne hreturn, String.ofList_toList, ih]
  | @returnFeed line rest more hline h ih =>
    have htext : line ++ "\r\n" ++ rest =
        String.ofList ((line.toList ++ ['\r']) ++ '\n' :: rest.toList) := by
      simp [← String.toList_inj]
    have hrun : '\n' ∉ line.toList ++ ['\r'] := by simpa using hline
    rw [htext, lines_append_feed hrun, dropReturn_concat, String.ofList_toList, ih]

/-- One more run with a line feed behind it is one more line. -/
theorem IsLines.cons {run : List Char} {rest : String} {more : List String} (h : '\n' ∉ run)
    (hrest : IsLines rest more) :
    IsLines (String.ofList (run ++ '\n' :: rest.toList))
      (String.ofList (dropReturn run) :: more) := by
  by_cases hreturn : run.getLast? = some '\r'
  · obtain ⟨front, rfl⟩ := List.getLast?_eq_some_iff.1 hreturn
    have htext : String.ofList ((front ++ ['\r']) ++ '\n' :: rest.toList) =
        String.ofList front ++ "\r\n" ++ rest := by
      simp [← String.toList_inj]
    rw [htext, dropReturn_concat]
    exact .returnFeed (by simpa using h) hrest
  · have htext : String.ofList (run ++ '\n' :: rest.toList) =
        String.ofList run ++ "\n" ++ rest := by
      simp [← String.toList_inj]
    rw [htext, dropReturn_of_ne hreturn]
    exact .feed (by simpa using h) (by simpa using hreturn) hrest

/-- A text falls into the lines that are computed. -/
theorem isLines_lines (text : String) : IsLines text (lines text) := by
  by_cases hfeed : '\n' ∈ text.toList
  · -- the first line feed ends a line, and what follows is a shorter text
    obtain ⟨run, rest, htext, hrun⟩ := List.eq_append_cons_of_mem hfeed
    have hcut : text = String.ofList (run ++ '\n' :: (String.ofList rest).toList) := by
      rw [String.toList_ofList, ← htext, String.ofList_toList]
    have hshorter : rest.length < text.length := by
      rw [← String.length_toList, htext, List.length_append, List.length_cons]
      omega
    have hrest := isLines_lines (String.ofList rest)
    rw [hcut, lines_append_feed hrun]
    exact hrest.cons hrun
  · by_cases hempty : text = ""
    · subst hempty
      exact .nil
    · rw [lines_of_not_mem hempty hfeed]
      exact .last hempty hfeed
termination_by text.length

/-- A text falls into lines in exactly one way. -/
theorem isLines_iff {text : String} {all : List String} : IsLines text all ↔ all = lines text := by
  constructor
  · exact fun h ↦ h.lines_eq.symm
  · rintro rfl
    exact isLines_lines text

/-! ### Runs of lines -/

/-- An excerpt around the line with the given index is a run of lines: that line, and as many as the
width on each side of it, or as there are. -/
structure Excerpt.IsAround (all : List String) (index width : Nat) (e : Excerpt) : Prop where
  /-- The line is the one with the index. -/
  line : all[index]? = some e.line
  /-- So many lines come before. -/
  before : e.before.length = min index width
  /-- So many lines come after. -/
  after : e.after.length = min (all.length - index - 1) width
  /-- They stand next to each other, the line at its index. -/
  run : ∃ front back, front ++ (e.before ++ [e.line] ++ e.after) ++ back = all ∧
    front.length + e.before.length = index

variable {all : List String} {index : Nat} {here : String}

/-- The run of lines around an index. -/
theorem isAround_take_drop (h : all[index]? = some here) (width : Nat) :
    Excerpt.IsAround all index width {
      before := (all.take index).drop (index - width)
      line := here
      after := (all.drop (index + 1)).take width } := by
  obtain ⟨hlt, hget⟩ := List.getElem?_eq_some_iff.1 h
  have hbefore : ((all.take index).drop (index - width)).length = min index width := by
    simp only [List.length_drop, List.length_take]
    omega
  have hafter : ((all.drop (index + 1)).take width).length =
      min (all.length - index - 1) width := by
    simp only [List.length_drop, List.length_take]
    omega
  refine ⟨h, hbefore, hafter, (all.take index).take (index - width),
    (all.drop (index + 1)).drop width, ?_, ?_⟩
  · calc (all.take index).take (index - width) ++
          ((all.take index).drop (index - width) ++ [here] ++ (all.drop (index + 1)).take width) ++
          (all.drop (index + 1)).drop width
        = ((all.take index).take (index - width) ++ (all.take index).drop (index - width)) ++
            here :: ((all.drop (index + 1)).take width ++ (all.drop (index + 1)).drop width) := by
          simp only [List.append_assoc, List.cons_append, List.nil_append]
      _ = all.take index ++ here :: all.drop (index + 1) := by
          rw [List.take_append_drop, List.take_append_drop]
      _ = all := by rw [← hget, ← List.drop_eq_getElem_cons hlt, List.take_append_drop]
  · rw [hbefore, List.length_take, List.length_take]
    omega

/-- Past the last line there is an empty excerpt. -/
theorem excerpt?_of_length_le {text : String} {line : UInt64}
    (h : (lines text).length ≤ line.toNat - 1) (width : UInt64) :
    excerpt? text line width = some ⟨[], "", []⟩ := by
  rw [excerpt?]
  simp only [List.getElem?_eq_none h]

/-- Up to the last line there is an excerpt if the place after it has a number. -/
theorem excerpt?_of_getElem? {text : String} {line : UInt64}
    (h : (lines text)[line.toNat - 1]? = some here) (width : UInt64) :
    excerpt? text line width =
      if line.toNat - 1 + 1 + width.toNat < UInt64.size then
        some {
          before := ((lines text).take (line.toNat - 1)).drop (line.toNat - 1 - width.toNat)
          line := here
          after := ((lines text).drop (line.toNat - 1 + 1)).take width.toNat }
      else none := by
  rw [excerpt?]
  simp only [h]

/-! ### Checked slices and sums -/

/-- What puts an end to taking an excerpt. -/
inductive ExcerptFault where
  /-- A slice reaches beyond the list, or ends before it starts. -/
  | range
  /-- A sum has no 64-bit number. -/
  | sum
deriving DecidableEq, Repr

/-- The number, if it has 64 bits. -/
def checkedSum (n : Nat) : Except ExcerptFault Nat :=
  if n < UInt64.size then .ok n else .error .sum

/-- The element of a list at an index. -/
def checkedItem (all : List String) (index : Nat) : Except ExcerptFault String :=
  match all[index]? with
  | none => .error .range
  | some here => .ok here

/-- The elements of a list from one index up to another. -/
def checkedSlice (all : List String) (start stop : Nat) : Except ExcerptFault (List String) :=
  if start ≤ stop ∧ stop ≤ all.length then .ok ((all.take stop).drop start) else .error .range

/-- The excerpt around a line, with each element, slice and sum checked. -/
def slicedExcerpt (text : String) (line width : UInt64) : Except ExcerptFault Excerpt :=
  let all := lines text
  let index := line.toNat - 1
  if all.length ≤ index then .ok ⟨[], "", []⟩
  else do
    let here ← checkedItem all index
    let before ← checkedSlice all (index - width.toNat) index
    let next ← checkedSum (index + 1)
    let stop ← checkedSum (next + width.toNat)
    let after ← checkedSlice all next (min stop all.length)
    return ⟨before, here, after⟩

theorem checkedSlice_of_le {start stop : Nat} (hstart : start ≤ stop) (hstop : stop ≤ all.length) :
    checkedSlice all start stop = .ok ((all.take stop).drop start) :=
  if_pos ⟨hstart, hstop⟩

/-- A slice that is cut off at the end of the list is what is left of it, up to the width. -/
theorem drop_take_min (all : List String) (start width : Nat) :
    (all.take (min (start + width) all.length)).drop start = (all.drop start).take width := by
  rw [List.drop_take, List.take_eq_take_iff, List.length_drop]
  omega

/-- No slice is refused, and no sum but that of the place after the excerpt. -/
theorem slicedExcerpt_eq (text : String) (line width : UInt64) :
    slicedExcerpt text line width =
      match excerpt? text line width with
      | some e => .ok e
      | none => .error .sum := by
  rcases Nat.lt_or_ge (line.toNat - 1) (lines text).length with hlt | hle
  · have hget := List.getElem?_eq_getElem hlt
    have hitem : checkedItem (lines text) (line.toNat - 1) =
        .ok (lines text)[line.toNat - 1] := by rw [checkedItem, hget]
    have hbefore := checkedSlice_of_le (Nat.sub_le (line.toNat - 1) width.toNat) (Nat.le_of_lt hlt)
    have hnext : checkedSum (line.toNat - 1 + 1) = .ok (line.toNat - 1 + 1) := by
      have hline := line.toNat_lt_size
      have hone : 1 < UInt64.size := by decide
      exact if_pos (by omega)
    rw [slicedExcerpt, if_neg (Nat.not_le.2 hlt), excerpt?_of_getElem? hget, hitem, hbefore, hnext]
    show (checkedSum (line.toNat - 1 + 1 + width.toNat) >>= fun stop ↦ _) = _
    rw [checkedSum]
    split
    next hfits =>
      have hafter : checkedSlice (lines text) (line.toNat - 1 + 1)
          (min (line.toNat - 1 + 1 + width.toNat) (lines text).length) =
            .ok (((lines text).drop (line.toNat - 1 + 1)).take width.toNat) := by
        rw [checkedSlice_of_le (by omega) (Nat.min_le_right _ _), drop_take_min]
      show (checkedSlice (lines text) _ _ >>= fun after ↦ _) = _
      rw [hafter]
      rfl
    next => rfl
  · rw [slicedExcerpt, if_pos hle, excerpt?_of_length_le hle]

/-! ### Excerpts -/

/-- A text falls into lines in one way. Past the last of them an excerpt is empty. Up to the last it
is the run of lines around the one that was asked for, if the place after that run has a 64-bit
number, and otherwise, and only then, there is none. It is the same with slices and sums that are
checked, and the only one that can be refused is the sum for that place. -/
theorem excerpt_determined_by_lines (text : String) (line width : UInt64) :
    (∀ all, IsLines text all ↔ all = lines text) ∧
      ((lines text).length ≤ line.toNat - 1 →
        excerpt? text line width = some ⟨[], "", []⟩) ∧
      (line.toNat - 1 < (lines text).length →
        line.toNat - 1 + 1 + width.toNat ≤ UInt64.size - 1 →
          ∃ e, excerpt? text line width = some e ∧
            e.IsAround (lines text) (line.toNat - 1) width.toNat) ∧
      (excerpt? text line width = none ↔
        line.toNat - 1 < (lines text).length ∧
          UInt64.size - 1 < line.toNat - 1 + 1 + width.toNat) ∧
      slicedExcerpt text line width =
        match excerpt? text line width with
        | some e => .ok e
        | none => .error .sum := by
  refine ⟨fun _ ↦ isLines_iff, fun hle ↦ excerpt?_of_length_le hle width, fun hlt hfits ↦ ?_, ?_,
    slicedExcerpt_eq text line width⟩
  · have hget := List.getElem?_eq_getElem hlt
    rw [excerpt?_of_getElem? hget, if_pos (Nat.lt_of_le_of_lt hfits (by decide))]
    exact ⟨_, rfl, isAround_take_drop hget width.toNat⟩
  · rcases Nat.lt_or_ge (line.toNat - 1) (lines text).length with hlt | hle
    · have hsize : 0 < UInt64.size := by decide
      rw [excerpt?_of_getElem? (List.getElem?_eq_getElem hlt)]
      split
      next hfits => exact iff_of_false (Option.some_ne_none _) (by omega)
      next hfits => exact iff_of_true rfl ⟨hlt, by omega⟩
    · rw [excerpt?_of_length_le hle]
      exact iff_of_false (Option.some_ne_none _) fun h ↦ absurd h.1 (Nat.not_lt.2 hle)

/-- The first line of three, with as many lines around it as can be asked for, and with one more. -/
theorem excerpt_sample :
    IsLines "a\r\nb\nc" ["a", "b", "c"] ∧
      (lines "a\r\nb\nc").length ≤ (4 : UInt64).toNat - 1 ∧
      excerpt? "a\r\nb\nc" 4 1 = some ⟨[], "", []⟩ ∧
      (0 : UInt64).toNat - 1 < (lines "a\r\nb\nc").length ∧
      (0 : UInt64).toNat - 1 + 1 + (18446744073709551614 : UInt64).toNat ≤ UInt64.size - 1 ∧
      (∃ e, excerpt? "a\r\nb\nc" 0 18446744073709551614 = some e ∧
        e.IsAround (lines "a\r\nb\nc") ((0 : UInt64).toNat - 1)
          (18446744073709551614 : UInt64).toNat) ∧
      excerpt? "a\r\nb\nc" 0 18446744073709551615 = none := by
  have hlines : lines "a\r\nb\nc" = ["a", "b", "c"] := by cbv
  have hpast : (lines "a\r\nb\nc").length ≤ (4 : UInt64).toNat - 1 := by
    rw [hlines]
    decide
  have hthere : (0 : UInt64).toNat - 1 < (lines "a\r\nb\nc").length := by
    rw [hlines]
    decide
  have hfits : (0 : UInt64).toNat - 1 + 1 + (18446744073709551614 : UInt64).toNat ≤
      UInt64.size - 1 := by decide
  exact ⟨((excerpt_determined_by_lines _ 0 0).1 _).2 hlines.symm, hpast,
    (excerpt_determined_by_lines _ 4 1).2.1 hpast, hthere, hfits,
    (excerpt_determined_by_lines _ 0 18446744073709551614).2.2.1 hthere hfits,
    (excerpt_determined_by_lines _ 0 18446744073709551615).2.2.2.1.2 ⟨hthere, by decide⟩⟩

end SourceChain.Text
