import Mathlib.Data.List.Chain
import SourceChain.Proofs.Mappings.RoundTrip
import SourceChain.Proofs.Vlq.Shortest

/-!
# What reading accepts, and how it is written

A text that is read says more than the segments that are read from it: which pieces stand on which
line, and how their numbers are spelled. The lemmas here go from a run of the reader that succeeds
back to what the text was, one level at a time. A piece is read as a segment whose differences,
taken from the same sums, are the quantities of the piece (`of_decodePiece`). The pieces of a line
are read as the segments described by `PiecesRead`, and the lines of a text as those described by
`LinesRead`.

Both descriptions are about the segments and about the sums that the reader and the writer share, so
each is kept by reading one piece or one line more (`PiecesRead.cons`, `LinesRead.cons`). Both end
in what the segments are written as: the pieces that are not empty, each on its own line, provided
that nothing had to be sorted, that the numbers are in shortest form, and that the last line has a
piece. Without these provisos the segments are still in order, with lines from one on.
-/

namespace SourceChain.Mappings

open SourceMap.Builder (sortSegments)

/-! ### One piece -/

/-- A run that succeeds went through a result of its first step. -/
theorem exists_of_bind_eq_ok {ε α β : Type} {x : Except ε α} {f : α → Except ε β} {b : β}
    (h : x >>= f = .ok b) : ∃ a, x = .ok a ∧ f a = .ok b := by
  cases x with
  | error e => cases h
  | ok a => exact ⟨a, rfl, h⟩

/-- A sum that is taken for a 32-bit number is that number in its word. -/
theorem eq_widen_of_word32 {field : Field} {line n : UInt32} {value : Int64}
    (h : word32 field line value = .ok n) : value = widen n := by
  rw [word32] at h
  split at h
  next hbounds =>
    obtain rfl := Except.ok.inj h
    obtain ⟨hlow, hhigh⟩ := hbounds
    have hlow : 0 ≤ value.toInt := Int64.le_iff_toInt_le.1 hlow
    have hhigh : value.toInt ≤ 4294967295 := Int64.le_iff_toInt_le.1 hhigh
    have hclamp : value.toNatClampNeg = value.toInt.toNat := rfl
    have hlt : value.toNatClampNeg < UInt32.size := by
      rw [hclamp, UInt32.size]
      omega
    rw [← Int64.toInt_inj, toInt_widen, UInt32.toNat_ofNat_of_lt' hlt, hclamp,
      Int.toNat_of_nonneg hlow]
  next => cases h

/-- A position that is read on a line counted from zero is written back on that line. -/
theorem of_zeroBased {line column : UInt32} {p : Position} (h : zeroBased line column = .ok p) :
    p.line.toNat = line.toNat + 1 ∧ p.column = column ∧ p.zeroBasedLine = line := by
  rw [zeroBased] at h
  split at h
  next q hq =>
    obtain rfl := Except.ok.inj h
    obtain ⟨hlt, rfl⟩ := Position.ofZeroBased_eq_ok_iff.1 hq
    have hline : (line + 1).toNat = line.toNat + 1 := by
      rw [UInt32.toNat_add]
      exact Nat.mod_eq_of_lt hlt
    have hne : line + 1 ≠ 0 := by
      intro hzero
      rw [hzero] at hline
      exact absurd hline (Nat.succ_ne_zero _).symm
    refine ⟨hline, rfl, ?_⟩
    rw [Position.zeroBasedLine, if_neg hne, UInt32.add_sub_cancel]
  next => cases h

/-- An origin that is read leaves the sums that writing takes from it. -/
theorem of_origin {totals : Totals Int64} {line : UInt32} {name : Option UInt32} {origin : Origin}
    (h : totals.origin line name = .ok origin) :
    origin.name = name ∧ origin.position.line ≠ 0 ∧ totals.source = widen origin.source ∧
      totals.line = widen origin.position.zeroBasedLine ∧
      totals.column = widen origin.position.column := by
  rw [Totals.origin_eq] at h
  obtain ⟨source, hsource, h⟩ := exists_of_bind_eq_ok h
  obtain ⟨sourceLine, hline, h⟩ := exists_of_bind_eq_ok h
  obtain ⟨sourceColumn, hcolumn, h⟩ := exists_of_bind_eq_ok h
  obtain ⟨position, hposition, h⟩ := exists_of_bind_eq_ok h
  obtain rfl := Except.ok.inj h
  obtain ⟨hnumber, rfl, rfl⟩ := of_zeroBased hposition
  refine ⟨rfl, fun hzero ↦ ?_, eq_widen_of_word32 hsource, eq_widen_of_word32 hline,
    eq_widen_of_word32 hcolumn⟩
  rw [hzero] at hnumber
  exact absurd hnumber (Nat.succ_ne_zero _).symm

/-- Taking a difference undoes adding it. -/
theorem sub_eq_of_add_eq {a d b : Int64} (h : a + d = b) : b - a = d := by
  rw [← h, Int64.add_comm, Int64.add_sub_cancel]

/-- Quantities that are read as a segment are those that the segment is written as, and the sums
move alike. -/
theorem advance_of_decoded {line : UInt32} {column : Int64} {totals totals' : Totals Int64}
    {values : List Int64} {deltas : Deltas Int64} {generated : Position} {origin : Option Origin}
    (hvalues : Deltas.ofValues? values = some deltas)
    (hcolumn : column + deltas.column = widen generated.column)
    (h : totals.advance line deltas = .ok (origin, totals')) (current : Nat) (occupied : Bool) :
    Cursor.advance ⟨current, occupied, column, totals⟩ ⟨generated, origin⟩ =
      (values, ⟨current, true, widen generated.column, totals'⟩) := by
  rw [Cursor.advance_eq]
  dsimp only
  rw [sub_eq_of_add_eq hcolumn]
  unfold Deltas.ofValues? at hvalues
  split at hvalues
  next c =>
    obtain rfl := Option.some.inj hvalues
    obtain ⟨rfl, rfl⟩ := Prod.mk.inj (Except.ok.inj h)
    rfl
  next c source sourceLine sourceColumn =>
    obtain rfl := Option.some.inj hvalues
    rw [Totals.advance_mapped] at h
    obtain ⟨start, hstart, h⟩ := exists_of_bind_eq_ok h
    obtain ⟨rfl, rfl⟩ := Prod.mk.inj (Except.ok.inj h)
    obtain ⟨hname, -, hsource, hline, hcolumn⟩ := of_origin hstart
    simp only [Totals.deltasTo_eq] at hsource hline hcolumn ⊢
    rw [hname]
    dsimp only
    rw [sub_eq_of_add_eq hsource, sub_eq_of_add_eq hline, sub_eq_of_add_eq hcolumn, hsource, hline,
      hcolumn]
    rfl
  next c source sourceLine sourceColumn name =>
    obtain rfl := Option.some.inj hvalues
    rw [Totals.advance_named] at h
    obtain ⟨index, hindex, h⟩ := exists_of_bind_eq_ok h
    obtain ⟨start, hstart, h⟩ := exists_of_bind_eq_ok h
    obtain ⟨rfl, rfl⟩ := Prod.mk.inj (Except.ok.inj h)
    obtain ⟨hname, -, hsource, hline, hcolumn⟩ := of_origin hstart
    have hindex := eq_widen_of_word32 hindex
    simp only [Totals.deltasTo_eq] at hsource hline hcolumn hindex ⊢
    rw [hname]
    dsimp only
    rw [sub_eq_of_add_eq hsource, sub_eq_of_add_eq hline, sub_eq_of_add_eq hcolumn,
      sub_eq_of_add_eq hindex, hsource, hline, hcolumn, hindex]
    rfl
  next => cases hvalues

/-- Origins that are read are on lines from one on. -/
theorem origin_line_ne_zero_of_advance {line : UInt32} {totals totals' : Totals Int64}
    {deltas : Deltas Int64} {origin : Option Origin}
    (h : totals.advance line deltas = .ok (origin, totals')) :
    ∀ start ∈ origin, start.position.line ≠ 0 := by
  rintro start rfl
  cases deltas with
  | generated => cases h
  | mapped =>
    rw [Totals.advance_mapped] at h
    obtain ⟨start, hstart, h⟩ := exists_of_bind_eq_ok h
    obtain ⟨hsome, -⟩ := Prod.mk.inj (Except.ok.inj h)
    exact Option.some.inj hsome ▸ (of_origin hstart).2.1
  | named =>
    rw [Totals.advance_named] at h
    obtain ⟨index, -, h⟩ := exists_of_bind_eq_ok h
    obtain ⟨start, hstart, h⟩ := exists_of_bind_eq_ok h
    obtain ⟨hsome, -⟩ := Prod.mk.inj (Except.ok.inj h)
    exact Option.some.inj hsome ▸ (of_origin hstart).2.1

/-- A segment that is read from a piece lies on the line of the piece, and its quantities are those
that it is written as. -/
theorem of_decodePiece {index : UInt32} {column column' : Int64} {totals totals' : Totals Int64}
    {piece : List Char} {s : Segment}
    (h : decodePiece index column totals piece = .ok (s, column', totals')) :
    s.generated.line.toNat = index.toNat + 1 ∧ (∀ origin ∈ s.origin, origin.position.line ≠ 0) ∧
      column' = widen s.generated.column ∧
      ∃ values, Vlq.decode (String.ofList piece) = .ok values ∧
        ∀ current occupied, Cursor.advance ⟨current, occupied, column, totals⟩ s =
          (values, ⟨current, true, column', totals'⟩) := by
  rw [decodePiece_eq] at h
  split at h
  next => cases h
  next values hdecode =>
    split at h
    next => cases h
    next deltas hvalues =>
      obtain ⟨generatedColumn, hcolumn, h⟩ := exists_of_bind_eq_ok h
      obtain ⟨generated, hgenerated, h⟩ := exists_of_bind_eq_ok h
      obtain ⟨⟨origin, after⟩, hadvance, h⟩ := exists_of_bind_eq_ok h
      obtain ⟨rfl, hrest⟩ := Prod.mk.inj (Except.ok.inj h)
      obtain ⟨rfl, rfl⟩ := Prod.mk.inj hrest
      obtain ⟨hline, rfl, -⟩ := of_zeroBased hgenerated
      have hcolumn := eq_widen_of_word32 hcolumn
      refine ⟨hline, origin_line_ne_zero_of_advance hadvance, hcolumn, values, hdecode, ?_⟩
      intro current occupied
      rw [advance_of_decoded hvalues hcolumn hadvance, hcolumn]

/-- The difference in column of a piece is negative if and only if its segment lies before the
column that the difference is added to. -/
theorem column_le_iff_of_decodePiece {index column : UInt32} {column' : Int64}
    {totals totals' : Totals Int64} {piece : List Char} {s : Segment}
    (h : decodePiece index (widen column) totals piece = .ok (s, column', totals')) :
    (∀ n ∈ (Vlq.numbersIn piece).head?, 0 ≤ Vlq.valueOf n) ↔ column ≤ s.generated.column := by
  obtain ⟨-, -, -, values, hdecode, hadvance⟩ := of_decodePiece h
  obtain ⟨-, hvalues, -⟩ := Vlq.numbersIn_of_decode hdecode
  rw [String.toList_ofList] at hvalues
  have hfirst : values.head? = some (widen s.generated.column - widen column) :=
    (congrArg (·.1.head?) (hadvance 0 false)).symm
  rw [hvalues, List.head?_map, Option.map_eq_some_iff] at hfirst
  obtain ⟨n, hn, hdifference⟩ := hfirst
  rw [hn, ← zero_le_widen_sub_widen, ← hdifference]
  exact ⟨fun hall ↦ hall n rfl, fun hle m hm ↦ Option.some.inj hm ▸ hle⟩

/-! ### The pieces of a line -/

/-- What is known of the segments that pieces are read as, from the given column and sums on, with
the sums that they leave. -/
structure PiecesRead (index column : UInt32) (totals : Totals Int64) (pieces : List (List Char))
    (segments : List Segment) (totals' : Totals Int64) : Prop where
  /-- They lie on the line of the pieces. -/
  line : ∀ s ∈ segments, s.generated.line.toNat = index.toNat + 1
  /-- Their origins are on lines from one on. -/
  origin_line_ne_zero : ∀ s ∈ segments, ∀ origin ∈ s.origin, origin.position.line ≠ 0
  /-- If the first difference in column is not negative, the first of them does not lie before the
  given column. -/
  column_le : (∀ piece ∈ pieces.head?, ∀ n ∈ (Vlq.numbersIn piece).head?, 0 ≤ Vlq.valueOf n) →
    ∀ s ∈ segments.head?, column ≤ s.generated.column
  /-- If no later difference in column is negative, their columns never go backwards. -/
  columns : (∀ piece ∈ pieces.tail, ∀ n ∈ (Vlq.numbersIn piece).head?, 0 ≤ Vlq.valueOf n) →
    segments.IsChain fun a b ↦ a.generated.column ≤ b.generated.column
  /-- If the pieces have numbers in shortest form, they are what the segments are written as. -/
  laidOut : (∀ piece ∈ pieces, ∀ n ∈ Vlq.numbersIn piece, Vlq.IsShortest n) →
    ∀ occupied, ∃ after : Cursor Int64, after.line = index.toNat + 1 ∧ after.totals = totals' ∧
      ∀ later, layOut ⟨index.toNat + 1, occupied, widen column, totals⟩ (segments ++ later) =
        (pieces ++ (layOut after later).1, (layOut after later).2)

/-- Reading one piece more. -/
theorem PiecesRead.cons {index column : UInt32} {column' : Int64}
    {totals totals' totals'' : Totals Int64} {piece : List Char} {pieces : List (List Char)}
    {s : Segment} {segments : List Segment}
    (hpiece : decodePiece index (widen column) totals piece = .ok (s, column', totals'))
    (h : PiecesRead index s.generated.column totals' pieces segments totals'') :
    PiecesRead index column totals (piece :: pieces) (s :: segments) totals'' := by
  obtain ⟨hline, horigin, rfl, values, hdecode, hadvance⟩ := of_decodePiece hpiece
  have hpieceText : (String.ofList piece).toList = piece := String.toList_ofList
  refine ⟨?_, ?_, fun hfirst ↦ ?_, fun hcolumns ↦ ?_, fun hshortest occupied ↦ ?_⟩
  · rintro t (_ | ⟨_, ht⟩)
    · exact hline
    · exact h.line t ht
  · rintro t (_ | ⟨_, ht⟩)
    · exact horigin
    · exact h.origin_line_ne_zero t ht
  · rintro t ht
    obtain rfl := Option.some.inj ht
    exact (column_le_iff_of_decodePiece hpiece).1 (hfirst piece rfl)
  · refine List.isChain_cons.2 ⟨?_, h.columns fun p hp ↦ hcolumns p (List.mem_of_mem_tail hp)⟩
    exact h.column_le fun p hp ↦ hcolumns p (List.mem_of_mem_head? hp)
  · obtain ⟨after, hafter, htotals, hrest⟩ :=
      h.laidOut (fun p hp ↦ hshortest p (List.mem_cons_of_mem piece hp)) true
    refine ⟨after, hafter, htotals, fun later ↦ ?_⟩
    have hwritten : values.flatMap Vlq.encodeOne = piece := by
      have hnumbers := hshortest piece List.mem_cons_self
      rw [← hpieceText] at hnumbers
      rw [Vlq.flatMap_encodeOne_of_decode hdecode hnumbers, hpieceText]
    rw [List.cons_append, layOut_cons_of_le _ (Nat.le_of_eq hline), hadvance, hrest, hwritten]
    rfl

theorem piecesRead_nil (index column : UInt32) (totals : Totals Int64) :
    PiecesRead index column totals [] [] totals := by
  refine ⟨by simp, by simp, by simp, fun _ ↦ List.IsChain.nil, fun _ occupied ↦ ?_⟩
  exact ⟨⟨index.toNat + 1, occupied, widen column, totals⟩, rfl, rfl, fun later ↦ rfl⟩

/-- Pieces that are read add the segments that those of them that are not empty are read as. -/
theorem exists_piecesRead {index column : UInt32} {totals totals' : Totals Int64}
    {pieces : List (List Char)} {read read' : Array Segment}
    (h : decodePieces index read (widen column) totals pieces = .ok (read', totals')) :
    ∃ segments, read'.toList = read.toList ++ segments ∧
      PiecesRead index column totals (pieces.filter (· ≠ [])) segments totals' := by
  induction pieces generalizing column totals read with
  | nil =>
    obtain ⟨rfl, rfl⟩ := Prod.mk.inj (Except.ok.inj h)
    exact ⟨[], (List.append_nil _).symm, piecesRead_nil _ _ _⟩
  | cons piece pieces ih =>
    rcases piece with - | ⟨c, cs⟩
    · exact ih h
    · rw [decodePieces_cons] at h
      · split at h
        next => cases h
        next s column' after hpiece =>
          obtain ⟨-, -, rfl, -⟩ := of_decodePiece hpiece
          obtain ⟨segments, hread, hsegments⟩ := ih h
          refine ⟨s :: segments, ?_, hsegments.cons hpiece⟩
          rw [hread, Array.toList_push, List.append_assoc, List.singleton_append]
      · exact List.cons_ne_nil c cs

/-! ### Lines -/

/-- The pieces of a line that are not empty. -/
def piecesOf (line : List Char) : List (List Char) :=
  (line.splitOn ',').filter (· ≠ [])

/-- A line is read as the segments of its pieces, sorted by position. -/
theorem exists_piecesRead_of_decodeLine {index : UInt32} {totals totals' : Totals Int64}
    {line : List Char} {segments : List Segment}
    (h : decodeLine index totals line = .ok (segments, totals')) :
    ∃ read, segments = sortSegments read ∧
      PiecesRead index 0 totals (piecesOf line) read totals' := by
  rw [decodeLine_eq] at h
  split at h
  next => cases h
  next read' after hpieces =>
    obtain ⟨rfl, rfl⟩ := Prod.mk.inj (Except.ok.inj h)
    have hstart : decodePieces index #[] (widen 0) totals (line.splitOn ',') =
        .ok (read', after) := hpieces
    obtain ⟨read, hread, hpiecesRead⟩ := exists_piecesRead hstart
    rw [List.nil_append] at hread
    have hline : ∀ s ∈ read, s.generated.line = UInt32.ofNat (index.toNat + 1) := by
      intro s hs
      rw [← hpiecesRead.line s hs, UInt32.ofNat_toNat]
    exact ⟨read, by rw [hread, mergeSort_column hline], hpiecesRead⟩

/-- Segments on one line whose columns never go backwards are in order. -/
theorem PiecesRead.sorted {index column : UInt32} {totals totals' : Totals Int64}
    {pieces : List (List Char)} {segments : List Segment}
    (h : PiecesRead index column totals pieces segments totals')
    (hcolumns : ∀ piece ∈ pieces.tail, ∀ n ∈ (Vlq.numbersIn piece).head?, 0 ≤ Vlq.valueOf n) :
    Sorted segments := by
  have hchain : (segments.map (·.generated.column)).IsChain (· ≤ ·) :=
    List.isChain_map _ |>.2 (h.columns hcolumns)
  have hpairwise := List.pairwise_map.1 (List.isChain_iff_pairwise.1 hchain)
  refine hpairwise.imp_of_mem fun {a b} ha hb hle ↦ .inr ⟨?_, hle⟩
  rw [← UInt32.toNat_inj, h.line a ha, h.line b hb]

/-- What is known of the segments that lines are read as, from the given sums on, if the first of
them has the given index. -/
structure LinesRead (index : Nat) (totals : Totals Int64) (lines : List (List Char))
    (segments : List Segment) : Prop where
  /-- They are in order, with lines from one on. -/
  regular : Regular segments
  /-- There are none without lines. -/
  eq_nil : lines = [] → segments = []
  /-- They lie on the lines of the text. -/
  index_lt : ∀ s ∈ segments, index < s.generated.line.toNat
  /-- If the lines have pieces in shortest form and in order of column, and the last line is not
  left empty, they are what the segments are written as. -/
  laidOut : lines ≠ [] → (∀ line ∈ lines.tail.getLast?, piecesOf line ≠ []) →
    (∀ line ∈ lines, ∀ piece ∈ piecesOf line, ∀ n ∈ Vlq.numbersIn piece, Vlq.IsShortest n) →
    (∀ line ∈ lines, ∀ piece ∈ (piecesOf line).tail, ∀ n ∈ (Vlq.numbersIn piece).head?,
      0 ≤ Vlq.valueOf n) →
    (layOut ⟨index + 1, false, 0, totals⟩ segments).1 ::
      (layOut ⟨index + 1, false, 0, totals⟩ segments).2 = lines.map piecesOf

/-- Reading one line more. -/
theorem LinesRead.cons {index : Nat} {totals totals' : Totals Int64} {line : List Char}
    {lines : List (List Char)} {read later : List Segment} (hindex : index < UInt32.size)
    (hline : PiecesRead (UInt32.ofNat index) 0 totals (piecesOf line) read totals')
    (h : LinesRead (index + 1) totals' lines later) :
    LinesRead index totals (line :: lines) (sortSegments read ++ later) := by
  have hnumber : ∀ s ∈ sortSegments read, s.generated.line.toNat = index + 1 := by
    intro s hs
    rw [hline.line s (List.mem_mergeSort.1 hs), UInt32.toNat_ofNat_of_lt' hindex]
  refine ⟨⟨?_, ?_, ?_⟩, fun hnil ↦ ?_, ?_, fun _ hlast hshortest hcolumns ↦ ?_⟩
  · refine List.pairwise_append.2
      ⟨SourceMap.Builder.sortSegments_sorted read, h.regular.sorted, fun a ha b hb ↦ .inl ?_⟩
    rw [UInt32.lt_iff_toNat_lt, hnumber a ha]
    exact h.index_lt b hb
  · intro s hs hzero
    rcases List.mem_append.1 hs with hs | hs
    · have hsucc := hnumber s hs
      rw [hzero] at hsucc
      exact absurd hsucc (Nat.succ_ne_zero index).symm
    · exact h.regular.line_ne_zero s hs hzero
  · intro s hs
    rcases List.mem_append.1 hs with hs | hs
    · exact hline.origin_line_ne_zero s (List.mem_mergeSort.1 hs)
    · exact h.regular.origin_line_ne_zero s hs
  · exact absurd hnil (List.cons_ne_nil line lines)
  · intro s hs
    rcases List.mem_append.1 hs with hs | hs
    · rw [hnumber s hs]
      exact Nat.lt_succ_self index
    · exact Nat.lt_of_succ_lt (h.index_lt s hs)
  · -- nothing is sorted, and each segment ahead opens a line that the text has
    have hsorted : sortSegments read = read :=
      List.mergeSort_of_pairwise
        ((hline.sorted (hcolumns line List.mem_cons_self)).imp decide_eq_true)
    obtain ⟨after, hafter, htotals, hrest⟩ :=
      hline.laidOut (hshortest line List.mem_cons_self) false
    rw [UInt32.toNat_ofNat_of_lt' hindex] at hafter hrest
    have hcolumn : widen 0 = 0 := rfl
    rw [hsorted, ← hcolumn, hrest]
    rcases lines with - | ⟨next, lines⟩
    · obtain rfl := h.eq_nil rfl
      rw [layOut, List.append_nil]
      rfl
    · have hlast' : ∀ l ∈ lines.getLast?, piecesOf l ≠ [] := by
        rcases lines with - | ⟨l, lines⟩
        · simp
        · rwa [List.tail_cons, List.getLast?_cons_cons] at hlast
      have hlaid := h.laidOut (List.cons_ne_nil next lines) hlast'
        (fun l hl ↦ hshortest l (List.mem_cons_of_mem line hl))
        (fun l hl ↦ hcolumns l (List.mem_cons_of_mem line hl))
      obtain ⟨s, later, rfl⟩ : ∃ s rest, later = s :: rest := by
        refine List.exists_cons_of_ne_nil ?_
        rintro rfl
        -- without segments there is one line, and nothing on it
        obtain ⟨hempty, hnil⟩ := List.cons.inj hlaid
        obtain rfl := List.map_eq_nil_iff.1 hnil.symm
        exact hlast next rfl hempty.symm
      have hahead : after.line < s.generated.line.toNat := by
        rw [hafter]
        exact h.index_lt s List.mem_cons_self
      rw [layOut_cons_of_lt _ hahead, hafter, htotals, hlaid, List.append_nil]
      rfl

/-- Lines that are read add the segments that they are read as. -/
theorem exists_linesRead {index : Nat} {totals : Totals Int64} {lines : List (List Char)}
    {done result : Array Segment} (h : decodeLines done totals index lines = .ok result) :
    ∃ segments, result.toList = done.toList ++ segments ∧
      LinesRead index totals lines segments := by
  induction lines generalizing done totals index with
  | nil =>
    obtain rfl := Except.ok.inj h
    refine ⟨[], (List.append_nil _).symm, ⟨.nil, by simp, by simp⟩, fun _ ↦ rfl, by simp, ?_⟩
    exact fun hne ↦ absurd rfl hne
  | cons line lines ih =>
    rw [decodeLines_cons] at h
    split at h
    next hindex =>
      split at h
      next => cases h
      next segments after hline =>
        obtain ⟨read, rfl, hread⟩ := exists_piecesRead_of_decodeLine hline
        obtain ⟨later, hresult, hlater⟩ := ih h
        refine ⟨sortSegments read ++ later, ?_, hlater.cons hindex hread⟩
        rw [hresult, Array.toList_appendList, List.append_assoc]
    next => cases h

/-! ### Whole texts -/

theorem linesRead_of_decode {text : String} {m : Mappings} (h : decode text = .ok m) :
    m = ofSorted m.toList ∧ LinesRead 0 {} (text.toList.splitOn ';') m.toList := by
  rw [decode_eq, decodeSegments_eq] at h
  split at h
  next segments hsegments =>
    obtain rfl := Except.ok.inj h
    split at hsegments
    next result hresult =>
      obtain rfl := Except.ok.inj hsegments
      obtain ⟨segments, hread, hlines⟩ := exists_linesRead hresult
      rw [List.nil_append] at hread
      exact ⟨rfl, by rwa [toList_ofSorted, hread]⟩
    next => cases hsegments
  next => cases h

end SourceChain.Mappings
