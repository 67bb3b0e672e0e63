import SourceChain.Proofs.Mappings.Reading

/-!
# Canonical mappings texts

Reading takes many spellings of the same segments: commas with nothing between them, semicolons
behind the last segment, segments out of column order, numbers that are longer than they have to be.
`Canonical` leaves these out, and a text that is read is canonical exactly if writing what was read
gives the text again. So writing is a bijection from the lists of segments that are in order, with
lines from one on, to the canonical texts that are read (`canonical_iff_encode_decode`).

One half is about reading: of a canonical text nothing is passed over and nothing is sorted, so the
pieces that were read are laid out again (`encode_of_canonical`, from `LinesRead.laidOut`). The
other is about writing: the pieces that are laid out for sorted segments start with a difference in
column that is not negative (`writtenPiece_layOut`), and what is read are such segments
(`LinesRead.regular`).
-/

namespace SourceChain.Mappings

/-! ### Canonical texts -/

/-- Whether a line is spelled in the only way that writing has for it. -/
structure CanonicalLine (line : List Char) : Prop where
  /-- Each comma stands between two pieces, of which neither is empty. -/
  commas : ',' ∈ line → ∀ piece ∈ line.splitOn ',', piece ≠ []
  /-- No piece after the first has a negative difference in column. -/
  columns : ∀ piece ∈ (piecesOf line).tail, ∀ n ∈ (Vlq.numbersIn piece).head?, 0 ≤ Vlq.valueOf n
  /-- All numbers are in shortest form. -/
  shortest : ∀ piece ∈ piecesOf line, ∀ n ∈ Vlq.numbersIn piece, Vlq.IsShortest n

/-- Whether a text is spelled in the only way that writing has for it. -/
structure Canonical (text : String) : Prop where
  /-- The last line is not left empty, unless it is the only one. -/
  getLast? : text.toList.getLast? ≠ some ';'
  /-- All lines are canonical. -/
  lines : ∀ line ∈ text.toList.splitOn ';', CanonicalLine line

theorem CanonicalLine.intercalate_piecesOf {line : List Char} (h : CanonicalLine line) :
    [','].intercalate (piecesOf line) = line := by
  by_cases hcomma : ',' ∈ line
  · have hall : piecesOf line = line.splitOn ',' :=
      List.filter_eq_self.2 fun piece hpiece ↦ decide_eq_true (h.commas hcomma piece hpiece)
    rw [hall, List.intercalate_splitOn]
  · rw [piecesOf, List.splitOn_eq_singleton hcomma]
    rcases line with - | ⟨c, cs⟩ <;> simp

/-! ### Canonical texts are written again -/

/-- A text that does not end in a mark does not leave the last line empty, unless it is the only
one. -/
theorem ne_nil_of_mem_getLast?_splitOn {text : List Char} {mark : Char}
    (h : text.getLast? ≠ some mark) : ∀ line ∈ (text.splitOn mark).tail.getLast?, line ≠ [] := by
  rintro line hline rfl
  obtain ⟨first, rest, hsplit⟩ := List.exists_cons_of_ne_nil (List.splitOn_ne_nil mark text)
  rw [hsplit, List.tail_cons, Option.mem_def, List.getLast?_eq_some_iff] at hline
  obtain ⟨before, rfl⟩ := hline
  have htext : text = first ++ (before.flatMap (mark :: ·) ++ [mark]) := by
    have hjoined : [mark].intercalate (text.splitOn mark) = text := List.intercalate_splitOn mark
    rw [← hjoined, hsplit, intercalate_cons, List.flatMap_append]
    rfl
  rw [htext, List.getLast?_append, List.getLast?_append] at h
  exact h rfl

/-- What was read of a canonical text is written as that text. -/
theorem encode_of_canonical {text : String} {m : Mappings} (h : decode text = .ok m)
    (hcanonical : Canonical text) : encode m.toList = text := by
  obtain ⟨-, hread⟩ := linesRead_of_decode h
  have hjoined : (text.toList.splitOn ';').map ([','].intercalate ∘ piecesOf) =
      text.toList.splitOn ';' := by
    refine (List.map_congr_left fun line hline ↦ ?_).trans (List.map_id' _)
    exact (hcanonical.lines line hline).intercalate_piecesOf
  have hlast : ∀ line ∈ (text.toList.splitOn ';').tail.getLast?, piecesOf line ≠ [] := by
    intro line hline hnil
    have hmem := List.mem_of_mem_tail (List.mem_of_mem_getLast? hline)
    have hline := ne_nil_of_mem_getLast?_splitOn hcanonical.getLast? line hline
    rw [← (hcanonical.lines line hmem).intercalate_piecesOf, hnil] at hline
    exact hline rfl
  have hlaid := hread.laidOut (List.splitOn_ne_nil ';' _) hlast
    (fun line hline ↦ (hcanonical.lines line hline).shortest)
    (fun line hline ↦ (hcanonical.lines line hline).columns)
  have hwritten : (encode m.toList).toList = text.toList := by
    rw [toList_encode]
    show [';'].intercalate (List.map _ ((layOut ⟨0 + 1, false, 0, {}⟩ m.toList).1 :: _)) = _
    rw [hlaid, List.map_map, hjoined, List.intercalate_splitOn]
  exact String.toList_inj.1 hwritten

/-! ### Written texts are canonical -/

/-- Whether a piece is that of a segment that does not lie before the one it follows. -/
def WrittenPiece (piece : List Char) : Prop :=
  ∃ column rest, piece = (column :: rest).flatMap Vlq.encodeOne ∧ 0 ≤ column ∧
    ∀ delta ∈ column :: rest, Vlq.Fits delta

theorem WrittenPiece.ne_nil {piece : List Char} (h : WrittenPiece piece) : piece ≠ [] := by
  obtain ⟨column, rest, rfl, -, -⟩ := h
  rw [List.flatMap_cons]
  exact List.append_ne_nil_of_left_ne_nil (Vlq.encodeOne_ne_nil column) _

theorem WrittenPiece.zero_le_valueOf {piece : List Char} (h : WrittenPiece piece) :
    ∀ n ∈ (Vlq.numbersIn piece).head?, 0 ≤ Vlq.valueOf n := by
  obtain ⟨column, rest, rfl, hcolumn, hfits⟩ := h
  intro n hn
  rw [Vlq.numbersIn_flatMap_encodeOne, List.map_cons, List.head?_cons] at hn
  rw [← Option.some.inj hn, Vlq.valueOf_numberOf (hfits column List.mem_cons_self)]
  exact hcolumn

theorem WrittenPiece.isShortest {piece : List Char} (h : WrittenPiece piece) :
    ∀ n ∈ Vlq.numbersIn piece, Vlq.IsShortest n := by
  obtain ⟨column, rest, rfl, -, hfits⟩ := h
  intro n hn
  rw [Vlq.numbersIn_flatMap_encodeOne] at hn
  obtain ⟨delta, hdelta, rfl⟩ := List.mem_map.1 hn
  exact Vlq.isShortest_numberOf (hfits delta hdelta)

/-- Where a cursor may stand before sorted segments: on a line that none of them lies before, and in
a column that none of them on that line lies before. -/
structure Cursor.Before (cursor : Cursor Int64) (segments : List Segment) : Prop where
  /-- The numbers that differences are taken from are 32-bit numbers. -/
  narrow : cursor.Narrow
  /-- The segments are in order. -/
  sorted : Sorted segments
  /-- No segment lies on an earlier line. -/
  line_le : ∀ s ∈ segments, cursor.line ≤ s.generated.line.toNat
  /-- No segment on the line of the cursor has an earlier column. -/
  column_le : ∀ s ∈ segments, cursor.line = s.generated.line.toNat →
    0 ≤ widen s.generated.column - cursor.column

/-- Moving to the line of the next segment keeps the cursor before it. -/
theorem Cursor.Before.zero_le_sub_column {cursor : Cursor Int64} {s : Segment} {rest : List Segment}
    (h : cursor.Before (s :: rest)) :
    0 ≤ widen s.generated.column - (cursor.toLine s.generated.line.toNat).column := by
  rw [Cursor.toLine]
  split
  next => exact zero_le_widen_sub_zero s.generated.column
  next hline =>
    refine h.column_le s List.mem_cons_self (Nat.le_antisymm ?_ (Nat.not_lt.1 hline))
    exact h.line_le s List.mem_cons_self

/-- Writing a segment leaves the cursor before those that follow. -/
theorem Cursor.Before.advance {cursor : Cursor Int64} {s : Segment} {rest : List Segment}
    (h : cursor.Before (s :: rest)) :
    ((cursor.toLine s.generated.line.toNat).advance s).2.Before rest := by
  have hline : (cursor.toLine s.generated.line.toNat).line = s.generated.line.toNat := by
    rw [Cursor.toLine]
    split
    next => rfl
    next hline =>
      exact Nat.le_antisymm (h.line_le s List.mem_cons_self) (Nat.not_lt.1 hline)
  refine ⟨(h.narrow.toLine _).advance s, h.sorted.of_cons, fun t ht ↦ ?_, fun t ht hsame ↦ ?_⟩
  · show (cursor.toLine s.generated.line.toNat).line ≤ _
    rw [hline]
    exact UInt32.le_iff_toNat_le.1 (Position.line_le_of_le (List.rel_of_pairwise_cons h.sorted ht))
  · have hsame : (cursor.toLine s.generated.line.toNat).line = t.generated.line.toNat := hsame
    have hle := List.rel_of_pairwise_cons h.sorted ht
    exact zero_le_widen_sub_widen.2
      (Position.column_le_of_le hle (UInt32.toNat_inj.1 (hline.symm.trans hsame)))

/-- The pieces of sorted segments are those of segments that do not lie before the ones they
follow. -/
theorem writtenPiece_layOut {cursor : Cursor Int64} {segments : List Segment}
    (h : cursor.Before segments) :
    (∀ piece ∈ (layOut cursor segments).1, WrittenPiece piece) ∧
      ∀ line ∈ (layOut cursor segments).2, ∀ piece ∈ line, WrittenPiece piece := by
  refine forall_mem_layOut Cursor.Before (fun cursor s rest h ↦ ⟨?_, h.advance⟩) h
  exact ⟨_, _, rfl, h.zero_le_sub_column, (h.narrow.toLine _).fits s⟩

theorem canonicalLine_of_writtenPiece {pieces : List (List Char)}
    (h : ∀ piece ∈ pieces, WrittenPiece piece) (hcomma : ∀ piece ∈ pieces, ',' ∉ piece) :
    CanonicalLine ([','].intercalate pieces) := by
  rcases pieces with - | ⟨piece, pieces⟩
  · exact ⟨by simp, by simp [piecesOf], by simp [piecesOf]⟩
  · have hsplit : ([','].intercalate (piece :: pieces)).splitOn ',' = piece :: pieces :=
      List.splitOn_intercalate ',' hcomma (List.cons_ne_nil _ _)
    have hpieces : piecesOf ([','].intercalate (piece :: pieces)) = piece :: pieces := by
      rw [piecesOf, hsplit]
      exact List.filter_eq_self.2 fun p hp ↦ decide_eq_true (h p hp).ne_nil
    refine ⟨fun _ ↦ ?_, ?_, ?_⟩
    · rw [hsplit]
      exact fun p hp ↦ (h p hp).ne_nil
    · rw [hpieces]
      exact fun p hp ↦ (h p (List.mem_of_mem_tail hp)).zero_le_valueOf
    · rw [hpieces]
      exact fun p hp ↦ (h p hp).isShortest

/-- The text of segments ends in a digit. -/
theorem getLast?_encodeFrom_ne {out : String} (hout : out.toList.getLast? ≠ some ';')
    (cursor : Cursor Int64) (segments : List Segment) :
    (encodeFrom out cursor segments).toList.getLast? ≠ some ';' := by
  induction segments generalizing out cursor with
  | nil => exact hout
  | cons s rest ih =>
    rw [encodeFrom_cons]
    refine ih ?_ _
    obtain ⟨marks, hpiece⟩ : ∃ marks, (cursor.write s).1 = marks ++
        ((cursor.toLine s.generated.line.toNat).advance s).1.flatMap Vlq.encodeOne :=
      ⟨_, by rw [Cursor.write_eq]⟩
    have hne := flatMap_encodeOne_advance_ne_nil (cursor.toLine s.generated.line.toNat) s
    rw [String.toList_append, String.toList_ofList, hpiece, List.getLast?_append,
      List.getLast?_append, List.getLast?_eq_some_getLast hne]
    intro hlast
    refine not_mem_flatMap_encodeOne Vlq.Digit.toChar_ne_semicolon
      ((cursor.toLine s.generated.line.toNat).advance s).1 ?_
    rw [← Option.some.inj hlast]
    exact List.getLast_mem hne

theorem canonical_encode {segments : List Segment} (h : Regular segments) :
    Canonical (encode segments) := by
  have hbefore : Cursor.Before {} segments := by
    refine ⟨.start, h.sorted, fun s hs ↦ ?_, fun s _ _ ↦ zero_le_widen_sub_zero s.generated.column⟩
    exact UInt32.le_iff_toNat_le.1 (one_le_of_ne_zero (h.line_ne_zero s hs))
  obtain ⟨hhere, hlater⟩ := writtenPiece_layOut hbefore
  obtain ⟨hcommas, hcommas'⟩ := not_mem_of_mem_layOut {} segments Vlq.Digit.toChar_ne_comma
  refine ⟨getLast?_encodeFrom_ne (by simp) _ _, ?_⟩
  rw [splitOn_encode]
  intro line hline
  obtain ⟨pieces, hpieces, rfl⟩ := List.mem_map.1 hline
  rcases List.mem_cons.1 hpieces with rfl | hpieces
  · exact canonicalLine_of_writtenPiece hhere hcommas
  · exact canonicalLine_of_writtenPiece (hlater pieces hpieces) (hcommas' pieces hpieces)

/-! ### The correspondence -/

/-- A text that is read is canonical exactly if what was read is written as that text. Segments that
are in order, with lines from one on, are written as canonical texts, and each canonical text that
is read is what exactly one list of such segments is written as. -/
theorem canonical_iff_encode_decode :
    (∀ text m, decode text = .ok m → (encode m.toList = text ↔ Canonical text)) ∧
      (∀ segments, Regular segments → Canonical (encode segments)) ∧
      Set.BijOn encode {segments | Regular segments}
        {text | Canonical text ∧ ∃ m, decode text = .ok m} := by
  have hback : ∀ segments, Regular segments → decode (encode segments) = .ok (ofSorted segments) :=
    fun segments h ↦ decode_encode_of_sorted h.sorted h.line_ne_zero h.origin_line_ne_zero
  have hmaps : Set.MapsTo encode {segments | Regular segments}
      {text | Canonical text ∧ ∃ m, decode text = .ok m} := by
    intro segments (h : Regular segments)
    exact ⟨canonical_encode h, _, hback segments h⟩
  have hinj : Set.InjOn encode {segments | Regular segments} := by
    intro segments (h : Regular segments) others (hothers : Regular others) hsame
    have hread := hback segments h
    rw [hsame, hback others hothers] at hread
    exact (congrArg toList (Except.ok.inj hread)).symm
  have hsurj : Set.SurjOn encode {segments | Regular segments}
      {text | Canonical text ∧ ∃ m, decode text = .ok m} := by
    rintro text ⟨hcanonical, m, hm⟩
    exact ⟨m.toList, (linesRead_of_decode hm).2.regular, encode_of_canonical hm hcanonical⟩
  refine ⟨fun text m hm ↦ ⟨fun hsame ↦ ?_, encode_of_canonical hm⟩, fun _ ↦ canonical_encode,
    hmaps, hinj, hsurj⟩
  rw [← hsame]
  exact canonical_encode (linesRead_of_decode hm).2.regular

/-- Segments on two lines, with and without origins and names. -/
def sampleSegments : List Segment :=
  [⟨⟨1, 4⟩, some ⟨0, ⟨1, 0⟩, none⟩⟩, ⟨⟨3, 0⟩, some ⟨1, ⟨2, 16⟩, some 1⟩⟩, ⟨⟨3, 7⟩, none⟩]

/-- Two spellings of the same segments: the second has a stray comma, a number with a zero on top,
and a semicolon behind the last line. -/
theorem canonical_sampleSegments :
    Regular sampleSegments ∧
      decode "IAAA;;ACCgBC,O" = .ok (ofSorted sampleSegments) ∧ Canonical "IAAA;;ACCgBC,O" ∧
      decode "IAAA;;ACCgBC,,uA;" = .ok (ofSorted sampleSegments) ∧
      ¬ Canonical "IAAA;;ACCgBC,,uA;" := by
  have hwritten : encode sampleSegments = "IAAA;;ACCgBC,O" := by decide +kernel
  have hregular : Regular sampleSegments :=
    ⟨by decide, by decide, by decide⟩
  have hback : decode "IAAA;;ACCgBC,O" = .ok (ofSorted sampleSegments) := by
    rw [← hwritten]
    exact decode_encode_of_sorted hregular.sorted hregular.line_ne_zero
      hregular.origin_line_ne_zero
  have hread : decode "IAAA;;ACCgBC,,uA;" = .ok (ofSorted sampleSegments) := by
    have hlines : "IAAA;;ACCgBC,,uA;".toList.splitOn ';' =
        ["IAAA".toList, [], "ACCgBC,,uA".toList, []] := by decide +kernel
    have hfirst : decodeLine 0 {} "IAAA".toList =
        .ok ([⟨⟨1, 4⟩, some ⟨0, ⟨1, 0⟩, none⟩⟩], {}) := by decide +kernel
    have hthird : decodeLine 2 {} "ACCgBC,,uA".toList =
        .ok ([⟨⟨3, 0⟩, some ⟨1, ⟨2, 16⟩, some 1⟩⟩, ⟨⟨3, 7⟩, none⟩], ⟨1, 1, 16, 1⟩) := by
      have hpieces : decodePieces 2 #[] 0 {} ("ACCgBC,,uA".toList.splitOn ',') =
          .ok (#[⟨⟨3, 0⟩, some ⟨1, ⟨2, 16⟩, some 1⟩⟩, ⟨⟨3, 7⟩, none⟩], ⟨1, 1, 16, 1⟩) := by
        decide +kernel
      rw [decodeLine_eq, hpieces]
      dsimp only
      rw [List.mergeSort_of_pairwise (by decide)]
    rw [decode_eq, decodeSegments_eq, hlines, decodeLines_of_decodeLine (by decide) hfirst,
      decodeLines_of_decodeLine (by decide) (decodeLine_nil _ _),
      decodeLines_of_decodeLine (by decide) hthird,
      decodeLines_of_decodeLine (by decide) (decodeLine_nil _ _)]
    rfl
  obtain ⟨hcanonical, m, hm⟩ := canonical_iff_encode_decode.2.2.mapsTo hregular
  have hsame := canonical_iff_encode_decode.1 _ _ hread
  rw [hwritten] at hcanonical
  refine ⟨hregular, hback, hcanonical, hread, fun hstray ↦ ?_⟩
  have hequal : encode sampleSegments = "IAAA;;ACCgBC,,uA;" := hsame.2 hstray
  rw [hwritten] at hequal
  exact absurd hequal (by decide)

end SourceChain.Mappings
