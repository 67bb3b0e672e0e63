import SourceChain.Proofs.Mappings.Layout
import SourceChain.Proofs.Mappings.Lookup
import SourceChain.SourceMap.Builder

/-!
# Mappings read back as they were written

Writing goes through the segments with a cursor that never goes back a line, and writes no line
zero. So what is read back are the segments with their lines lifted (`liftLines`): each generated
line to the highest line so far, and each original line to one. Each line is then sorted by column,
which for lifted segments is sorting them as a whole (`decodeSegments_encode`). Segments that are in
order, with lines from one on, are read back as they are (`decode_encode_of_sorted`), and no others
are (`decode_encode`).

Cutting the text at its marks gives the pieces that were laid out (`splitOn_encode`), so it is left
to see that reading piece by piece undoes writing segment by segment. The cursor holds 32-bit
numbers in 64-bit words (`Cursor.Narrow`), so every difference is one that reads back, and adding it
to the number it was taken from gives a 32-bit number again. `decodePiece_advance` is one step of
this, and `resume_layOut` a whole run.
-/

namespace SourceChain

namespace Mappings

/-! ### Sorting in parts -/

section Sorting

variable {α : Type} {le : α → α → Bool}

/-- Where everything in a first part may stand before everything in a second, sorting them together
is sorting each. -/
theorem mergeSort_append (trans : ∀ a b c, le a b → le b c → le a c)
    (total : ∀ a b, le a b || le b a) {l₁ l₂ : List α} (h : ∀ a ∈ l₁, ∀ b ∈ l₂, le a b) :
    (l₁ ++ l₂).mergeSort le = l₁.mergeSort le ++ l₂.mergeSort le := by
  induction l₁ with
  | nil => simp
  | cons a l₁ ih =>
    -- the head goes right behind what must stand before it, in both lists
    obtain ⟨u, v, hsort, hrest, hu⟩ := List.mergeSort_cons trans total a (l₁ ++ l₂)
    obtain ⟨u', v', hsort', hrest', hu'⟩ := List.mergeSort_cons trans total a l₁
    have hbehind : ∀ {l x y : List α}, (a :: l).mergeSort le = x ++ a :: y →
        ∀ b ∈ y, le a b = true := by
      intro l x y hxy b hb
      have hpairwise := List.pairwise_mergeSort trans total (a :: l)
      rw [hxy] at hpairwise
      exact List.rel_of_pairwise_cons (List.pairwise_append.1 hpairwise).2.1 hb
    have hcut : ∀ {x y : List α}, (∀ b ∈ x, (!le a b) = true) → (∀ b ∈ y, le a b = true) →
        (x ++ y).takeWhile (fun b ↦ !le a b) = x := by
      intro x y hx hy
      rw [List.takeWhile_append_of_pos hx, List.append_right_eq_self]
      cases y with
      | nil => rfl
      | cons b y => exact List.takeWhile_cons_of_neg (by simp [hy b List.mem_cons_self])
    have hbehind' : ∀ b ∈ v' ++ l₂.mergeSort le, le a b = true := by
      intro b hb
      rcases List.mem_append.1 hb with hb | hb
      · exact hbehind hsort' b hb
      · exact h a List.mem_cons_self b (List.mem_mergeSort.1 hb)
    have hsame : u ++ v = u' ++ (v' ++ l₂.mergeSort le) := by
      rw [← hrest, ih fun b hb ↦ h b (List.mem_cons_of_mem a hb), hrest', List.append_assoc]
    have hu_eq : u = u' := by rw [← hcut hu (hbehind hsort), hsame, hcut hu' hbehind']
    subst hu_eq
    rw [List.cons_append, hsort, hsort', List.append_cancel_left hsame, List.append_assoc,
      List.cons_append]

end Sorting

/-! ### Numbers in words -/

theorem toInt_widen (n : UInt32) : (widen n).toInt = n.toNat := by
  have hlt : n.toNat < 2 ^ 63 := Nat.lt_trans n.toNat_lt (by decide)
  exact Int64.toInt_ofNat_of_lt hlt

/-- A 32-bit number is read from its word. -/
theorem word32_widen (field : Field) (line n : UInt32) : word32 field line (widen n) = .ok n := by
  have hbounds : 0 ≤ widen n ∧ widen n ≤ 4294967295 := by
    rw [Int64.le_iff_toInt_le, Int64.le_iff_toInt_le, toInt_widen]
    have hlt : n.toNat < 4294967296 := n.toNat_lt
    exact ⟨Int.natCast_nonneg _, show (n.toNat : Int) ≤ 4294967295 by omega⟩
  rw [word32, if_pos hbounds, Int64.toNatClampNeg, toInt_widen, Int.toNat_natCast,
    UInt32.ofNat_toNat]

/-- The difference of two 32-bit numbers does not wrap. -/
theorem toInt_widen_sub_widen (m n : UInt32) : (widen m - widen n).toInt = m.toNat - n.toNat := by
  have hm : m.toNat < 4294967296 := m.toNat_lt
  have hn : n.toNat < 4294967296 := n.toNat_lt
  rw [Int64.toInt_sub, toInt_widen, toInt_widen]
  exact Int.bmod_eq_of_le (by omega) (by omega)

/-- The difference of two 32-bit numbers reads back. -/
theorem fits_widen_sub_widen (m n : UInt32) : Vlq.Fits (widen m - widen n) := by
  have hm : m.toNat < 4294967296 := m.toNat_lt
  have hn : n.toNat < 4294967296 := n.toNat_lt
  rw [Vlq.Fits, toInt_widen_sub_widen]
  omega

/-- The difference of two 32-bit numbers is negative if and only if the second is larger. -/
theorem zero_le_widen_sub_widen {m n : UInt32} : 0 ≤ widen m - widen n ↔ n ≤ m := by
  rw [Int64.le_iff_toInt_le, toInt_widen_sub_widen, UInt32.le_iff_toNat_le]
  show 0 ≤ (m.toNat : Int) - n.toNat ↔ _
  omega

theorem zero_le_widen_sub_zero (n : UInt32) : 0 ≤ widen n - 0 := by
  show 0 ≤ widen n - widen 0
  exact zero_le_widen_sub_widen.2 (UInt32.le_iff_toNat_le.2 (Nat.zero_le _))

/-- Adding a difference to what it was taken from gives what it was taken to. -/
theorem add_sub_self (a b : Int64) : a + (b - a) = b := by
  rw [Int64.add_comm, Int64.sub_add_cancel]

end Mappings

/-! ### Lifted lines -/

/-- An origin with its line lifted to one. -/
def Origin.lift (origin : Origin) : Origin :=
  { origin with position := ⟨max 1 origin.position.line, origin.position.column⟩ }

/-- A segment with its generated line lifted to the given one, and its original line to one. -/
def Segment.lift (line : UInt32) (s : Segment) : Segment :=
  ⟨⟨max line s.generated.line, s.generated.column⟩, s.origin.map Origin.lift⟩

namespace Mappings

open SourceMap.Builder (sortSegments)

/-! ### One piece -/

theorem one_le_of_ne_zero {n : UInt32} (h : n ≠ 0) : 1 ≤ n := by
  have hpos : 0 < n.toNat := Nat.pos_of_ne_zero fun h0 ↦ h (UInt32.toNat_inj.1 h0)
  exact UInt32.le_iff_toNat_le.2 hpos

theorem max_eq_of_le {a b : UInt32} (h : a ≤ b) : max a b = b := by
  rw [UInt32.max_def, if_pos h]

theorem toNat_max (a b : UInt32) : (max a b).toNat = max a.toNat b.toNat := by
  rw [UInt32.max_def]
  split
  next h => exact (Nat.max_eq_right (UInt32.le_iff_toNat_le.1 h)).symm
  next h =>
    have hle : b.toNat ≤ a.toNat := Nat.le_of_not_le fun hle ↦ h (UInt32.le_iff_toNat_le.2 hle)
    exact (Nat.max_eq_left hle).symm

/-- A lifted line is not zero. -/
theorem max_ne_zero {line : UInt32} (h : line ≠ 0) (n : UInt32) : max line n ≠ 0 := by
  intro hzero
  have hle : line.toNat ≤ (max line n).toNat := by
    rw [toNat_max]
    exact Nat.le_max_left _ _
  rw [hzero] at hle
  exact h (UInt32.toNat_inj.1 (Nat.le_zero.1 hle))

/-- The index of a line is one below its number. -/
theorem toNat_sub_one_add_one {line : UInt32} (h : line ≠ 0) :
    (line - 1).toNat + 1 = line.toNat := by
  rw [UInt32.toNat_sub_of_le _ _ (one_le_of_ne_zero h)]
  exact Nat.sub_add_cancel (UInt32.le_iff_toNat_le.1 (one_le_of_ne_zero h))

theorem zeroBased_sub_one {line : UInt32} (h : line ≠ 0) (column : UInt32) :
    zeroBased (line - 1) column = .ok ⟨line, column⟩ := by
  have hok : Position.ofZeroBased (line - 1) column = .ok ⟨line, column⟩ := by
    refine Position.ofZeroBased_eq_ok_iff.2 ⟨?_, by rw [UInt32.sub_add_cancel]⟩
    rw [toNat_sub_one_add_one h]
    exact line.toNat_lt
  rw [zeroBased, hok]

/-- The line that is written for a position is read as its line lifted to one. -/
theorem zeroBased_zeroBasedLine (p : Position) :
    zeroBased p.zeroBasedLine p.column = .ok ⟨max 1 p.line, p.column⟩ := by
  have hline : p.zeroBasedLine = max 1 p.line - 1 := by
    rw [Position.zeroBasedLine]
    split
    next h =>
      rw [h]
      rfl
    next h => rw [max_eq_of_le (one_le_of_ne_zero h)]
  rw [hline, zeroBased_sub_one (max_ne_zero (by decide) _)]

/-- The sums that an origin leaves point at it. -/
theorem origin_widen (origin : Origin) (name : Int64) (line : UInt32) (index : Option UInt32) :
    Totals.origin ⟨widen origin.source, widen origin.position.zeroBasedLine,
      widen origin.position.column, name⟩ line index = .ok { origin.lift with name := index } := by
  simp only [Totals.origin_eq, word32_widen]
  show (zeroBased origin.position.zeroBasedLine origin.position.column >>= _) = _
  rw [zeroBased_zeroBasedLine]
  rfl

/-- The differences of an origin say where it lies. -/
theorem exists_advance_deltasTo (totals : Totals Int64) (origin : Origin) (line : UInt32)
    (column : Int64) :
    ∃ deltas, Deltas.ofValues? (column :: (totals.deltasTo origin).1) = some deltas ∧
      deltas.column = column ∧
      totals.advance line deltas = .ok (some origin.lift, (totals.deltasTo origin).2) := by
  obtain ⟨source, position, name⟩ := origin
  rw [Totals.deltasTo_eq]
  cases name with
  | none =>
    refine ⟨_, rfl, rfl, ?_⟩
    simp only [Totals.advance_mapped, add_sub_self]
    rw [origin_widen ⟨source, position, none⟩]
    rfl
  | some name =>
    refine ⟨_, rfl, rfl, ?_⟩
    simp only [Totals.advance_named, add_sub_self, word32_widen]
    show (Totals.origin _ line (some name) >>= _) = _
    rw [origin_widen ⟨source, position, some name⟩]
    rfl

/-- The differences of a segment say where it lies on its line and where it came from. -/
theorem exists_advance (cursor : Cursor Int64) (s : Segment) (line : UInt32) :
    ∃ deltas, Deltas.ofValues? (cursor.advance s).1 = some deltas ∧
      cursor.column + deltas.column = widen s.generated.column ∧
      cursor.totals.advance line deltas =
        .ok (s.origin.map Origin.lift, (cursor.advance s).2.totals) := by
  obtain ⟨generated, origin⟩ := s
  cases origin with
  | none => exact ⟨_, rfl, add_sub_self _ _, rfl⟩
  | some origin =>
    obtain ⟨deltas, hvalues, hcolumn, hadvance⟩ :=
      exists_advance_deltasTo cursor.totals origin line (widen generated.column - cursor.column)
    refine ⟨deltas, hvalues, ?_, hadvance⟩
    rw [hcolumn, add_sub_self]

/-- Whether all numbers that differences are taken from are 32-bit numbers. -/
structure Cursor.Narrow (cursor : Cursor Int64) : Prop where
  column : ∃ n, cursor.column = widen n
  source : ∃ n, cursor.totals.source = widen n
  line : ∃ n, cursor.totals.line = widen n
  sourceColumn : ∃ n, cursor.totals.column = widen n
  name : ∃ n, cursor.totals.name = widen n

namespace Cursor.Narrow

variable {cursor : Cursor Int64}

theorem start : Cursor.Narrow {} :=
  ⟨⟨0, rfl⟩, ⟨0, rfl⟩, ⟨0, rfl⟩, ⟨0, rfl⟩, ⟨0, rfl⟩⟩

theorem toLine (h : cursor.Narrow) (line : Nat) : (cursor.toLine line).Narrow := by
  rw [Cursor.toLine]
  split
  · exact ⟨⟨0, rfl⟩, h.source, h.line, h.sourceColumn, h.name⟩
  · exact h

theorem advance (h : cursor.Narrow) (s : Segment) : (cursor.advance s).2.Narrow := by
  obtain ⟨generated, _ | ⟨source, position, _ | name⟩⟩ := s
  · exact ⟨⟨_, rfl⟩, h.source, h.line, h.sourceColumn, h.name⟩
  · exact ⟨⟨_, rfl⟩, ⟨_, rfl⟩, ⟨_, rfl⟩, ⟨_, rfl⟩, h.name⟩
  · exact ⟨⟨_, rfl⟩, ⟨_, rfl⟩, ⟨_, rfl⟩, ⟨_, rfl⟩, ⟨_, rfl⟩⟩

/-- All differences from a narrow cursor read back. -/
theorem fits (h : cursor.Narrow) (s : Segment) :
    ∀ delta ∈ (cursor.advance s).1, Vlq.Fits delta := by
  have hfits : ∀ {total : Int64} (n : UInt32), (∃ m, total = widen m) →
      Vlq.Fits (widen n - total) := by
    rintro _ n ⟨m, rfl⟩
    exact fits_widen_sub_widen n m
  obtain ⟨generated, _ | ⟨source, position, _ | name⟩⟩ := s <;>
    simp [Cursor.advance_eq, Totals.deltasTo_eq, hfits, h.column, h.source, h.line, h.sourceColumn,
      h.name]

end Cursor.Narrow

/-- Reading a written piece gives the segment back, lifted to the line it was written on, and leaves
the sums as writing left them. -/
theorem decodePiece_advance {cursor : Cursor Int64} (hnarrow : cursor.Narrow) {line : UInt32}
    (hline : line ≠ 0) (s : Segment) :
    decodePiece (line - 1) cursor.column cursor.totals
        ((cursor.advance s).1.flatMap Vlq.encodeOne) =
      .ok (⟨⟨line, s.generated.column⟩, s.origin.map Origin.lift⟩, (cursor.advance s).2.column,
        (cursor.advance s).2.totals) := by
  obtain ⟨deltas, hvalues, hcolumn, hadvance⟩ :=
    exists_advance cursor s (displayLine (line - 1))
  rw [decodePiece_eq]
  simp only [Vlq.decode_flatMap_encodeOne (hnarrow.fits s), bind, Except.bind, hvalues, hcolumn,
    word32_widen, zeroBased_sub_one hline, hadvance]
  rfl

/-! ### Sorting by column -/

theorem sortSegments_append {l₁ l₂ : List Segment}
    (h : ∀ a ∈ l₁, ∀ b ∈ l₂, a.generated ≤ b.generated) :
    sortSegments (l₁ ++ l₂) = sortSegments l₁ ++ sortSegments l₂ :=
  mergeSort_append (Position.decide_le_trans Segment.generated)
    (Position.decide_le_total Segment.generated) fun a ha b hb ↦ decide_eq_true (h a ha b hb)

/-- Segments on a line go before those on later lines. -/
theorem sortSegments_append_of_line_lt {line : UInt32} {l₁ l₂ : List Segment}
    (h₁ : ∀ a ∈ l₁, a.generated.line = line)
    (h₂ : ∀ b ∈ l₂, line.toNat < b.generated.line.toNat) :
    sortSegments (l₁ ++ l₂) = sortSegments l₁ ++ sortSegments l₂ := by
  refine sortSegments_append fun a ha b hb ↦ .inl ?_
  rw [h₁ a ha]
  exact UInt32.lt_iff_toNat_lt.2 (h₂ b hb)

/-- On one line, sorting by column is sorting by position. -/
theorem mergeSort_column {line : UInt32} {segments : List Segment}
    (h : ∀ s ∈ segments, s.generated.line = line) :
    (segments.mergeSort fun a b ↦ a.generated.column ≤ b.generated.column) =
      sortSegments segments := by
  have hsame : ∀ a ∈ segments, ∀ b ∈ segments,
      decide (a.generated.column ≤ b.generated.column) = decide (a.generated ≤ b.generated) := by
    intro a ha b hb
    rw [decide_eq_decide, Position.le_iff, h a ha, h b hb]
    refine ⟨fun hle ↦ .inr ⟨rfl, hle⟩, ?_⟩
    rintro (hlt | ⟨-, hle⟩)
    · exact absurd hlt (UInt32.lt_irrefl line)
    · exact hle
  simpa [sortSegments] using List.map_mergeSort (f := id) hsame

/-! ### Whole texts -/

/-- Segments with their lines lifted: each generated line to the highest one so far, which is `line`
at the start, and each original line to one. -/
def liftLines (line : UInt32) : List Segment → List Segment
  | [] => []
  | s :: rest => s.lift line :: liftLines (max line s.generated.line) rest

theorem le_of_mem_liftLines {line : UInt32} {segments : List Segment} {s : Segment}
    (h : s ∈ liftLines line segments) : line.toNat ≤ s.generated.line.toNat := by
  induction segments generalizing line with
  | nil => cases h
  | cons t rest ih =>
    rcases List.mem_cons.1 h with rfl | h
    · show line.toNat ≤ (max line t.generated.line).toNat
      rw [toNat_max]
      exact Nat.le_max_left _ _
    · have hle := ih h
      rw [toNat_max] at hle
      exact Nat.le_trans (Nat.le_max_left _ _) hle

/-- Reads the rest of a line and the lines after it, after the segments `done` of the lines before
and `read` of the line itself. -/
def resume (index : UInt32) (done read : Array Segment) (column : Int64) (totals : Totals Int64)
    (pieces : List (List Char)) (lines : List (List (List Char))) : Except Error (Array Segment) :=
  match decodePieces index read column totals pieces with
  | .error e => .error e
  | .ok (segments, totals) =>
    decodeLines
      (done ++ segments.toList.mergeSort fun a b ↦ a.generated.column ≤ b.generated.column)
      totals (index.toNat + 1) (lines.map [','].intercalate)

/-- A line that is read leaves its segments behind the others. -/
theorem decodeLines_of_decodeLine {index : Nat} {totals totals' : Totals Int64} {line : List Char}
    {segments : List Segment} (hindex : index < UInt32.size)
    (h : decodeLine (UInt32.ofNat index) totals line = .ok (segments, totals'))
    (done : Array Segment) (lines : List (List Char)) :
    decodeLines done totals index (line :: lines) =
      decodeLines (done ++ segments) totals' (index + 1) lines := by
  rw [decodeLines_cons, if_pos hindex, h]

theorem decodeLine_nil (index : UInt32) (totals : Totals Int64) :
    decodeLine index totals [] = .ok ([], totals) := by
  simp [decodeLine_eq, decodePieces_nil_cons, decodePieces_nil]

/-- Reading goes on with the pieces of the next line. -/
theorem decodeLines_cons_eq_resume (done : Array Segment) (totals : Totals Int64) (index : UInt32)
    {pieces : List (List Char)} (h : ∀ piece ∈ pieces, ',' ∉ piece)
    (lines : List (List (List Char))) :
    decodeLines done totals index.toNat ((pieces :: lines).map [','].intercalate) =
      resume index done #[] 0 totals pieces lines := by
  have hpieces : decodePieces index #[] 0 totals ((([','].intercalate pieces)).splitOn ',') =
      decodePieces index #[] 0 totals pieces := by
    cases pieces with
    | nil => rfl
    | cons piece pieces => rw [List.splitOn_intercalate ',' h (by simp)]
  rw [List.map_cons, decodeLines_cons, if_pos index.toNat_lt, UInt32.ofNat_toNat,
    decodeLine_eq, hpieces,
    resume]
  cases decodePieces index #[] 0 totals pieces <;> rfl

/-- Empty lines are passed over. -/
theorem decodeLines_replicate (done : Array Segment) (totals : Totals Int64) {index count : Nat}
    (h : index + count < UInt32.size) (lines : List (List Char)) :
    decodeLines done totals index (List.replicate count [] ++ lines) =
      decodeLines done totals (index + count) lines := by
  induction count generalizing index with
  | zero => rfl
  | succ count ih =>
    rw [List.replicate_succ, List.cons_append,
      decodeLines_of_decodeLine (by omega) (decodeLine_nil _ totals)]
    show decodeLines done totals (index + 1) (List.replicate count [] ++ lines) = _
    rw [ih (by omega), Nat.add_assoc, Nat.add_comm 1]

/-- At the end of a line, its segments go behind the others. -/
theorem resume_nil {line : UInt32} (hline : line ≠ 0) (done : Array Segment) {read : Array Segment}
    (hread : ∀ s ∈ read.toList, s.generated.line = line) (column : Int64) (totals : Totals Int64)
    (lines : List (List (List Char))) :
    resume (line - 1) done read column totals [] lines =
      decodeLines (done ++ sortSegments read.toList) totals line.toNat
        (lines.map [','].intercalate) := by
  rw [resume, decodePieces_nil, toNat_sub_one_add_one hline, ← mergeSort_column hread]

/-- From the end of a line, reading goes on behind the empty lines that follow it. -/
theorem resume_nil_replicate {line next : UInt32} (hline : line ≠ 0)
    (hnext : line.toNat < next.toNat) (done : Array Segment) {read : Array Segment}
    (hread : ∀ s ∈ read.toList, s.generated.line = line) (column : Int64) (totals : Totals Int64)
    {pieces : List (List Char)} (hpieces : ∀ piece ∈ pieces, ',' ∉ piece)
    (lines : List (List (List Char))) :
    resume (line - 1) done read column totals []
        (List.replicate (next.toNat - line.toNat - 1) [] ++ pieces :: lines) =
      resume (next - 1) (done ++ sortSegments read.toList) #[] 0 totals pieces lines := by
  have hne : next ≠ 0 := by
    rintro rfl
    exact absurd hnext (Nat.not_lt_zero _)
  have hindex : line.toNat + (next.toNat - line.toNat - 1) = (next - 1).toNat := by
    have hsucc := toNat_sub_one_add_one hne
    omega
  have hempty : [','].intercalate [] = ([] : List Char) := rfl
  have hroom : line.toNat + (next.toNat - line.toNat - 1) < UInt32.size := by
    rw [hindex]
    exact (next - 1).toNat_lt
  rw [resume_nil hline done hread, List.map_append, List.map_replicate, hempty,
    decodeLines_replicate _ _ hroom, hindex, decodeLines_cons_eq_resume _ _ _ hpieces]

/-- Reading one piece on a line. -/
theorem resume_cons {cursor : Cursor Int64} (hnarrow : cursor.Narrow) {line : UInt32}
    (hline : line ≠ 0) (s : Segment) (done read : Array Segment) (pieces : List (List Char))
    (lines : List (List (List Char))) :
    resume (line - 1) done read cursor.column cursor.totals
        ((cursor.advance s).1.flatMap Vlq.encodeOne :: pieces) lines =
      resume (line - 1) done (read.push ⟨⟨line, s.generated.column⟩, s.origin.map Origin.lift⟩)
        (cursor.advance s).2.column (cursor.advance s).2.totals pieces lines := by
  have hpiece := decodePiece_advance hnarrow hline s
  obtain ⟨c, cs, hcs⟩ := List.exists_cons_of_ne_nil (flatMap_encodeOne_advance_ne_nil cursor s)
  rw [hcs] at hpiece ⊢
  rw [resume, decodePieces_cons, hpiece, resume]
  exact List.cons_ne_nil c cs

theorem line_toLine (cursor : Cursor Int64) {line : UInt32} (h : cursor.line = line.toNat)
    (n : UInt32) :
    (cursor.toLine n.toNat).line = (max line n).toNat := by
  rw [Cursor.toLine, h, toNat_max]
  split
  next hlt => exact (Nat.max_eq_right (Nat.le_of_lt hlt)).symm
  next hlt => rw [h, Nat.max_eq_left (Nat.not_lt.1 hlt)]

/-- Reading what is laid out from a cursor on gives the lifted segments, sorted behind what was read
on the line before them. -/
theorem resume_layOut {cursor : Cursor Int64} (hnarrow : cursor.Narrow) {line : UInt32}
    (hline : line ≠ 0) (hcursor : cursor.line = line.toNat) (done : Array Segment)
    {read : Array Segment} (hread : ∀ s ∈ read.toList, s.generated.line = line)
    (segments : List Segment) :
    (resume (line - 1) done read cursor.column cursor.totals (layOut cursor segments).1
        (layOut cursor segments).2).map Array.toList =
      .ok (done.toList ++ sortSegments (read.toList ++ liftLines line segments)) := by
  -- the induction is on the segments; the cursor and what has been read change at each of them
  induction segments generalizing cursor line done read with
  | nil =>
    rw [layOut, liftLines, List.append_nil, resume_nil hline done hread]
    show Except.ok (done ++ sortSegments read.toList).toList = _
    rw [Array.toList_appendList]
  | cons s rest ih =>
    have hcommas := (not_mem_of_mem_layOut cursor (s :: rest) Vlq.Digit.toChar_ne_comma).2
    have hmoved := hnarrow.toLine s.generated.line.toNat
    have hlifted := max_ne_zero hline s.generated.line
    have hafter := ih (hmoved.advance s) hlifted (line_toLine cursor hcursor s.generated.line)
    rw [layOut] at hcommas ⊢
    rw [liftLines, Segment.lift]
    by_cases hahead : cursor.line < s.generated.line.toNat
    · -- the line is complete, and what was read on it goes before everything that follows
      have hlt : line.toNat < s.generated.line.toNat := hcursor ▸ hahead
      have hmax : max line s.generated.line = s.generated.line :=
        max_eq_of_le (UInt32.le_iff_toNat_le.2 (Nat.le_of_lt hlt))
      have hmoved_eq : cursor.toLine s.generated.line.toNat =
          { cursor with line := s.generated.line.toNat, occupied := false, column := 0 } := by
        rw [Cursor.toLine, if_pos hahead]
      rw [hmax] at hlifted hafter ⊢
      simp only [if_pos hahead] at hcommas ⊢
      rw [hcursor] at hcommas ⊢
      rw [resume_nil_replicate hline hlt done hread _ _
        (hcommas _ (List.mem_append_right _ List.mem_cons_self))]
      have hstep := resume_cons hmoved hlifted s (done ++ sortSegments read.toList) #[]
      rw [hmoved_eq] at hstep hafter ⊢
      have hlater : ∀ t ∈ (⟨⟨s.generated.line, s.generated.column⟩, s.origin.map Origin.lift⟩ ::
          liftLines s.generated.line rest : List Segment), line.toNat < t.generated.line.toNat := by
        intro t ht
        rcases List.mem_cons.1 ht with rfl | ht
        · exact hlt
        · exact Nat.lt_of_lt_of_le hlt (le_of_mem_liftLines ht)
      rw [hstep, hafter _ (by simp), Array.toList_appendList, List.append_assoc,
        sortSegments_append_of_line_lt hread hlater]
      rfl
    · -- writing does not go back a line, so the segment stands behind those read on this one
      have hmax : max line s.generated.line = line := by
        rw [← UInt32.toNat_inj, toNat_max]
        exact Nat.max_eq_left (hcursor ▸ Nat.not_lt.1 hahead)
      have hstay : cursor.toLine s.generated.line.toNat = cursor := by
        rw [Cursor.toLine, if_neg hahead]
      rw [hmax] at hafter ⊢
      simp only [if_neg hahead, hstay] at hafter ⊢
      rw [resume_cons hnarrow hline, hafter, Array.toList_push, List.append_assoc]
      · rfl
      · intro t ht
        rw [Array.toList_push] at ht
        rcases List.mem_append.1 ht with ht | ht
        · exact hread t ht
        · rw [List.mem_singleton.1 ht]

/-- What is read back are the lifted segments, sorted. -/
theorem decodeSegments_encode (segments : List Segment) :
    decodeSegments (encode segments) = .ok (sortSegments (liftLines 1 segments)) := by
  have hone : (1 : UInt32) ≠ 0 := by decide
  have hread : ∀ s ∈ (#[] : Array Segment).toList, s.generated.line = 1 := by simp
  have hcommas := (not_mem_of_mem_layOut {} segments Vlq.Digit.toChar_ne_comma).1
  have hlines := decodeLines_cons_eq_resume #[] {} 0 hcommas (layOut {} segments).2
  have hrun : (decodeLines #[] {} 0 ((encode segments).toList.splitOn ';')).map Array.toList =
      .ok (sortSegments (liftLines 1 segments)) := by
    rw [splitOn_encode]
    exact (congrArg _ hlines).trans (resume_layOut .start hone rfl #[] hread segments)
  rw [decodeSegments_eq, ← hrun]
  cases decodeLines #[] {} 0 ((encode segments).toList.splitOn ';') <;> rfl

/-- Lifting leaves segments as they are that are in order, with lines from one on. -/
theorem liftLines_of_sorted {line : UInt32} {segments : List Segment} (hsorted : Sorted segments)
    (hline : ∀ s ∈ segments, line ≤ s.generated.line)
    (horigin : ∀ s ∈ segments, ∀ origin ∈ s.origin, origin.position.line ≠ 0) :
    liftLines line segments = segments := by
  induction segments generalizing line with
  | nil => rfl
  | cons s rest ih =>
    have hmax : max line s.generated.line = s.generated.line :=
      max_eq_of_le (hline s List.mem_cons_self)
    have hlift : s.origin.map Origin.lift = s.origin := by
      refine (Option.map_congr fun origin ho ↦ ?_).trans Option.map_id'
      rw [Origin.lift, max_eq_of_le (one_le_of_ne_zero (horigin s List.mem_cons_self origin ho))]
    -- sorted segments never go back a line, so the highest line so far is the current one
    have hnext : ∀ t ∈ rest, s.generated.line ≤ t.generated.line := fun t ht ↦
      Position.line_le_of_le (List.rel_of_pairwise_cons hsorted ht)
    rw [liftLines, Segment.lift, hmax, hlift,
      ih hsorted.of_cons hnext fun t ht ↦ horigin t (List.mem_cons_of_mem s ht)]

/-- Segments that are in order, with lines from one on, are read back as they are. -/
theorem decode_encode_of_sorted {segments : List Segment} (hsorted : Sorted segments)
    (hline : ∀ s ∈ segments, s.generated.line ≠ 0)
    (horigin : ∀ s ∈ segments, ∀ origin ∈ s.origin, origin.position.line ≠ 0) :
    decode (encode segments) = .ok (ofSorted segments) := by
  have hlifted : sortSegments (liftLines 1 segments) = segments := by
    rw [liftLines_of_sorted hsorted (fun s hs ↦ one_le_of_ne_zero (hline s hs)) horigin]
    exact List.mergeSort_of_pairwise (hsorted.imp decide_eq_true)
  rw [decode_eq, decodeSegments_encode, hlifted]

/-! ### Any list of segments -/

/-- The highest generated line of segments, or the given one if it is higher. -/
def highestLine (line : UInt32) (segments : List Segment) : UInt32 :=
  segments.foldl (fun line s ↦ max line s.generated.line) line

/-- The line that a segment is lifted to is the highest one up to and including its own. -/
theorem liftLines_eq_mapIdx (line : UInt32) (segments : List Segment) :
    liftLines line segments = segments.mapIdx fun i s ↦
      ⟨⟨highestLine line (segments.take (i + 1)), s.generated.column⟩, s.origin.map Origin.lift⟩ := by
  induction segments generalizing line with
  | nil => rfl
  | cons s rest ih =>
    rw [liftLines, List.mapIdx_cons, ih]
    rfl

/-- Lifting leaves no line zero. -/
theorem line_ne_zero_of_mem_liftLines {line : UInt32} (hline : line ≠ 0) {segments : List Segment}
    {s : Segment} (h : s ∈ liftLines line segments) :
    s.generated.line ≠ 0 ∧ ∀ origin ∈ s.origin, origin.position.line ≠ 0 := by
  induction segments generalizing line with
  | nil => cases h
  | cons t rest ih =>
    rcases List.mem_cons.1 h with rfl | h
    · refine ⟨max_ne_zero hline _, fun origin horigin ↦ ?_⟩
      obtain ⟨start, -, rfl⟩ := Option.map_eq_some_iff.1 horigin
      exact max_ne_zero (by decide) _
    · exact ih (max_ne_zero hline _) h

/-- Segments that are in order, with lines from one on. -/
structure Regular (segments : List Segment) : Prop where
  /-- The segments never go backwards in generated position. -/
  sorted : Sorted segments
  /-- Generated lines count from one. -/
  line_ne_zero : ∀ s ∈ segments, s.generated.line ≠ 0
  /-- Original lines count from one. -/
  origin_line_ne_zero : ∀ s ∈ segments, ∀ origin ∈ s.origin, origin.position.line ≠ 0

/-- Whatever segments are written, what is read back are those segments with each generated line
lifted to the highest one so far, and each original line to one, sorted stably by generated
position. They come back as they are exactly if they are in order, with lines from one on. -/
theorem decode_encode (segments : List Segment) :
    decode (encode segments) = .ok (ofSorted (sortSegments (segments.mapIdx fun i s ↦
        ⟨⟨highestLine 1 (segments.take (i + 1)), s.generated.column⟩,
          s.origin.map Origin.lift⟩))) ∧
      (decode (encode segments) = .ok (ofSorted segments) ↔ Regular segments) := by
  have hread : decode (encode segments) = .ok (ofSorted (sortSegments (liftLines 1 segments))) := by
    rw [decode_eq, decodeSegments_encode]
  refine ⟨liftLines_eq_mapIdx 1 segments ▸ hread, fun h ↦ ?_, fun h ↦ ?_⟩
  · rw [hread, Except.ok.injEq] at h
    have hsame : sortSegments (liftLines 1 segments) = segments := congrArg toList h
    have hmem : ∀ s ∈ segments, s ∈ liftLines 1 segments := by
      intro s hs
      rw [← hsame] at hs
      exact (SourceMap.Builder.sortSegments_perm _).mem_iff.1 hs
    refine ⟨hsame ▸ SourceMap.Builder.sortSegments_sorted _, fun s hs ↦ ?_, fun s hs ↦ ?_⟩
    · exact (line_ne_zero_of_mem_liftLines (by decide) (hmem s hs)).1
    · exact (line_ne_zero_of_mem_liftLines (by decide) (hmem s hs)).2
  · exact decode_encode_of_sorted h.sorted h.line_ne_zero h.origin_line_ne_zero

end Mappings

end SourceChain
