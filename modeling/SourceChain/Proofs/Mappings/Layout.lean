import SourceChain.Mappings.Text
import SourceChain.Proofs.Vlq.RoundTrip

/-!
# Which pieces are written on which line

`layOut` says what writing puts where: the pieces on the line that the cursor is on, and the pieces
on each line after it, some of which have none. The text consists of these pieces with commas and
semicolons between them (`toList_encodeFrom`). No piece holds either mark, so cutting the text at
the marks gives the pieces back (`splitOn_encode`).
-/

namespace SourceChain.Mappings

/-- The pieces that segments are written as from a cursor on: those on its line, and those on each
line after it. -/
def layOut (cursor : Cursor Int64) : List Segment → List (List Char) × List (List (List Char))
  | [] => ([], [])
  | s :: rest =>
    let line := s.generated.line.toNat
    let advanced := (cursor.toLine line).advance s
    let piece := advanced.1.flatMap Vlq.encodeOne
    let others := layOut advanced.2 rest
    if cursor.line < line then
      ([], List.replicate (line - cursor.line - 1) [] ++ (piece :: others.1) :: others.2)
    else (piece :: others.1, others.2)

/-- A segment on the line of the cursor, or behind it, goes on with that line. -/
theorem layOut_cons_of_le {cursor : Cursor Int64} {s : Segment} (rest : List Segment)
    (h : s.generated.line.toNat ≤ cursor.line) :
    layOut cursor (s :: rest) =
      ((cursor.advance s).1.flatMap Vlq.encodeOne :: (layOut (cursor.advance s).2 rest).1,
        (layOut (cursor.advance s).2 rest).2) := by
  have hstay : cursor.toLine s.generated.line.toNat = cursor := by
    rw [Cursor.toLine, if_neg (Nat.not_lt.2 h)]
  rw [layOut, hstay, if_neg (Nat.not_lt.2 h)]

/-- A segment ahead of the cursor leaves the line of the cursor, and what is laid out is what a
cursor at the start of the next line lays out. -/
theorem layOut_cons_of_lt {cursor : Cursor Int64} {s : Segment} (rest : List Segment)
    (h : cursor.line < s.generated.line.toNat) :
    layOut cursor (s :: rest) =
      ([], (layOut ⟨cursor.line + 1, false, 0, cursor.totals⟩ (s :: rest)).1 ::
        (layOut ⟨cursor.line + 1, false, 0, cursor.totals⟩ (s :: rest)).2) := by
  have hmoved : cursor.toLine s.generated.line.toNat =
      ⟨s.generated.line.toNat, false, 0, cursor.totals⟩ := by
    rw [Cursor.toLine, if_pos h]
  rw [layOut, layOut, hmoved, if_pos h]
  by_cases hnext : cursor.line + 1 < s.generated.line.toNat
  · have hmarks : s.generated.line.toNat - cursor.line - 1 =
        s.generated.line.toNat - (cursor.line + 1) - 1 + 1 := by
      omega
    simp only [Cursor.toLine, if_pos hnext, hmarks, List.replicate_succ, List.cons_append]
  · have hline : s.generated.line.toNat = cursor.line + 1 := by omega
    simp [Cursor.toLine, hline]

/-- Joined parts are the first one and then each of the others with a mark in front. -/
theorem intercalate_cons {mark : Char} (part : List Char) (parts : List (List Char)) :
    [mark].intercalate (part :: parts) = part ++ parts.flatMap (mark :: ·) := by
  induction parts generalizing part with
  | nil => simp
  | cons p ps ih =>
    rw [List.intercalate_cons_cons, ih, List.flatMap_cons]
    simp

/-- Lines with nothing on them are one mark each. -/
theorem flatMap_replicate_nil (count : Nat) :
    ((List.replicate count []).flatMap fun line ↦ ';' :: [','].intercalate line) =
      List.replicate count ';' := by
  induction count with
  | zero => rfl
  | succ count ih =>
    rw [List.replicate_succ, List.flatMap_cons, ih]
    rfl

/-- The text from a cursor on consists of the pieces laid out from it. -/
theorem toList_encodeFrom (out : String) (cursor : Cursor Int64) (segments : List Segment) :
    (encodeFrom out cursor segments).toList =
      out.toList ++ ((if cursor.occupied then (layOut cursor segments).1.flatMap (',' :: ·)
          else [','].intercalate (layOut cursor segments).1) ++
        (layOut cursor segments).2.flatMap fun line ↦ ';' :: [','].intercalate line) := by
  induction segments generalizing out cursor with
  | nil => simp [encodeFrom_nil, layOut]
  | cons s rest ih =>
    rw [encodeFrom_cons, layOut, ih, String.toList_append, String.toList_ofList, Cursor.write_eq]
    have hoccupied : ((cursor.toLine s.generated.line.toNat).advance s).2.occupied = true := rfl
    simp only [hoccupied, if_true]
    by_cases hline : cursor.line < s.generated.line.toNat
    · -- the marks up to the new line are those of the empty lines and its own
      have hmarks : List.replicate (s.generated.line.toNat - cursor.line) ';' =
          List.replicate (s.generated.line.toNat - cursor.line - 1) ';' ++ [';'] := by
        rw [← List.replicate_succ', Nat.sub_add_cancel (Nat.sub_pos_of_lt hline)]
      have hfresh : (cursor.toLine s.generated.line.toNat).occupied = false := by
        rw [Cursor.toLine, if_pos hline]
      simp only [if_pos hline, hmarks, hfresh, List.flatMap_append, flatMap_replicate_nil,
        List.flatMap_cons, intercalate_cons]
      simp
    · have hmarks : List.replicate (s.generated.line.toNat - cursor.line) ';' = [] := by
        rw [Nat.sub_eq_zero_of_le (Nat.not_lt.1 hline), List.replicate_zero]
      have hmoved : cursor.toLine s.generated.line.toNat = cursor := by
        rw [Cursor.toLine, if_neg hline]
      simp only [if_neg hline, hmarks, hmoved, List.flatMap_cons, intercalate_cons]
      cases cursor.occupied <;> simp

/-- Pieces are not empty. -/
theorem flatMap_encodeOne_advance_ne_nil (cursor : Cursor Int64) (s : Segment) :
    (cursor.advance s).1.flatMap Vlq.encodeOne ≠ [] := by
  rw [Cursor.advance_eq, List.flatMap_cons]
  exact List.append_ne_nil_of_left_ne_nil (Vlq.encodeOne_ne_nil _) _

/-- Quantities consist of digits, so they hold no marks. -/
theorem not_mem_flatMap_encodeOne {mark : Char} (hmark : ∀ d : Vlq.Digit, d.toChar ≠ mark)
    (values : List Int64) : mark ∉ values.flatMap Vlq.encodeOne := by
  intro hmem
  obtain ⟨value, -, hvalue⟩ := List.mem_flatMap.1 hmem
  obtain ⟨d, hd⟩ := Vlq.exists_digit_of_mem_encodeOne hvalue
  exact hmark d hd

/-- What holds of the next piece, wherever the cursor may stand, holds of all pieces laid out. `Inv`
says where it may stand, and what may follow. -/
theorem forall_mem_layOut {P : List Char → Prop} (Inv : Cursor Int64 → List Segment → Prop)
    (hstep : ∀ cursor s rest, Inv cursor (s :: rest) →
      P (((cursor.toLine s.generated.line.toNat).advance s).1.flatMap Vlq.encodeOne) ∧
        Inv ((cursor.toLine s.generated.line.toNat).advance s).2 rest)
    {cursor : Cursor Int64} {segments : List Segment} (h : Inv cursor segments) :
    (∀ piece ∈ (layOut cursor segments).1, P piece) ∧
      ∀ line ∈ (layOut cursor segments).2, ∀ piece ∈ line, P piece := by
  induction segments generalizing cursor with
  | nil => simp [layOut]
  | cons s rest ih =>
    obtain ⟨hpiece, hnext⟩ := hstep cursor s rest h
    obtain ⟨hhere, hlater⟩ := ih hnext
    have hfirst : ∀ piece ∈ (((cursor.toLine s.generated.line.toNat).advance s).1.flatMap
        Vlq.encodeOne) :: (layOut ((cursor.toLine s.generated.line.toNat).advance s).2 rest).1,
        P piece := by
      rintro piece (_ | ⟨_, hmem⟩)
      · exact hpiece
      · exact hhere piece hmem
    rw [layOut]
    split
    next hline =>
      refine ⟨by simp, fun line hmem ↦ ?_⟩
      rcases List.mem_append.1 hmem with hmem | hmem
      · obtain rfl := List.eq_of_mem_replicate hmem
        simp
      · rcases List.mem_cons.1 hmem with rfl | hmem
        · exact hfirst
        · exact hlater line hmem
    next hline => exact ⟨hfirst, hlater⟩

/-- No piece holds a mark. -/
theorem not_mem_of_mem_layOut (cursor : Cursor Int64) (segments : List Segment) {mark : Char}
    (hmark : ∀ d : Vlq.Digit, d.toChar ≠ mark) :
    (∀ piece ∈ (layOut cursor segments).1, mark ∉ piece) ∧
      ∀ line ∈ (layOut cursor segments).2, ∀ piece ∈ line, mark ∉ piece :=
  forall_mem_layOut (fun _ _ ↦ True)
    (fun _ _ _ _ ↦ ⟨not_mem_flatMap_encodeOne hmark _, trivial⟩) trivial

/-- The text of segments joins the pieces of each line by commas, and the lines by semicolons. -/
theorem toList_encode (segments : List Segment) :
    (encode segments).toList =
      [';'].intercalate
        (((layOut {} segments).1 :: (layOut {} segments).2).map [','].intercalate) := by
  rw [encode_eq_encodeFrom, toList_encodeFrom, List.map_cons, intercalate_cons, List.flatMap_map]
  rfl

/-- Cutting the text of segments at its marks gives the lines that were laid out. -/
theorem splitOn_encode (segments : List Segment) :
    (encode segments).toList.splitOn ';' =
      ((layOut {} segments).1 :: (layOut {} segments).2).map [','].intercalate := by
  obtain ⟨hhere, hlater⟩ := not_mem_of_mem_layOut {} segments Vlq.Digit.toChar_ne_semicolon
  rw [toList_encode]
  refine List.splitOn_intercalate ';' ?_ (by simp)
  -- a line is made of pieces and commas, and neither holds a semicolon
  intro text hmem
  obtain ⟨line, hline, rfl⟩ := List.mem_map.1 hmem
  have hpieces : ∀ piece ∈ line, ';' ∉ piece := by
    rcases List.mem_cons.1 hline with rfl | hline
    · exact hhere
    · exact hlater line hline
  cases line with
  | nil => simp
  | cons piece pieces =>
    rw [intercalate_cons, List.mem_append, List.mem_flatMap]
    rintro (hmem | ⟨p, hp, hmem⟩)
    · exact hpieces piece List.mem_cons_self hmem
    · rcases List.mem_cons.1 hmem with hmem | hmem
      · exact absurd hmem (by decide)
      · exact hpieces p (List.mem_cons_of_mem piece hp) hmem

end SourceChain.Mappings
