import SourceChain.Proofs.Mappings.Decoding
import SourceChain.Proofs.Vlq.Arithmetic

/-!
# The arithmetic of a mappings text

A mappings text is read by one reader and written by one writer, whatever they reckon with. Here
they reckon with integers in place of 64-bit words, and with steps of arithmetic that must be
allowed (`checkedReading`, `checkedWriting`). As with quantities, what is allowed is left open: it
may be everything, or only what lies in range.

Reading adds a quantity to a sum that was checked when it was taken, or that is zero. So a sum is a
32-bit number before every addition, and a quantity of fewer than sixty bits does not take it out of
a 64-bit word (`Step.InRange`). Writing takes a 32-bit number from another, and shifts the magnitude
of what it gets up by one bit (`WriteStep.InRange`).

No step leaves its range, whatever the text and whatever the segments. So with integers both come
to just what they come to with words (`checkedDecode_eq`, `checkedEncode_eq`). What carries this
from one segment to the next is that every number which the cursor holds is a 32-bit one
(`Cursor.Narrow`).
-/

namespace SourceChain.Mappings

/-! ### Words as integers -/

/-- The integers that sums in words stand for. -/
def Totals.toInt (totals : Totals Int64) : Totals Int where
  source := totals.source.toInt
  line := totals.line.toInt
  column := totals.column.toInt
  name := totals.name.toInt

/-- The integers that quantities in words stand for. -/
def Deltas.toInt : Deltas Int64 → Deltas Int
  | .generated column => .generated column.toInt
  | .mapped column source sourceLine sourceColumn =>
    .mapped column.toInt source.toInt sourceLine.toInt sourceColumn.toInt
  | .named column source sourceLine sourceColumn name =>
    .named column.toInt source.toInt sourceLine.toInt sourceColumn.toInt name.toInt

theorem Deltas.column_toInt (deltas : Deltas Int64) :
    deltas.toInt.column = deltas.column.toInt := by
  cases deltas <;> rfl

/-- What quantities are added to depends on how many of them there are. -/
theorem ofValues?_map_toInt (values : List Int64) :
    Deltas.ofValues? (values.map Int64.toInt) = (Deltas.ofValues? values).map Deltas.toInt := by
  rcases values with _ | ⟨a, _ | ⟨b, _ | ⟨c, _ | ⟨d, _ | ⟨e, _ | ⟨f, rest⟩⟩⟩⟩⟩⟩ <;> rfl

/-- Why a text is refused. A sum is reported as the integer that it is. -/
inductive Refusal where
  /-- A running sum does not fit 32 bits without a sign. -/
  | outOfRange (field : Field) (sum : Int) (line : UInt32)
  /-- Anything else, in which no sum is reported. -/
  | other (cause : Error)
deriving DecidableEq, Repr

/-- The refusal that an error reports. -/
def Error.refusal : Error → Refusal
  | .outOfRange field value line => .outOfRange field value.toInt line
  | e => .other e

/-! ### Reading with steps that must be allowed -/

/-- A step of arithmetic in reading. -/
inductive Step where
  /-- A step in reading the quantities of a piece. -/
  | quantity (step : Vlq.Step)
  /-- A quantity is added to a sum. -/
  | sum (field : Field) (before delta : Int)
deriving DecidableEq, Repr

/-- Whether everything that a step computes lies in range. A sum that is added to is a 32-bit
number. -/
def Step.InRange : Step → Prop
  | quantity step => step.InRange
  | sum _ before delta => InWord before ∧ (before + delta).natAbs ≤ 2 ^ 59 + 2 ^ 32

instance : DecidablePred Step.InRange
  | .quantity step => inferInstanceAs (Decidable step.InRange)
  | .sum _ _ _ => inferInstanceAs (Decidable (_ ∧ _))

section Reading

variable (allowed : Step → Prop) [DecidablePred allowed]

/-- The arithmetic of integers, whose steps must be allowed. -/
def checkedReading : ReadArithmetic (Checked Refusal) Int where
  quantities text := (Vlq.checkedDecode (fun step ↦ allowed (.quantity step)) text).adapt
    fun cause ↦ .other (.quantity cause)
  add field sum delta := .step (allowed (.sum field sum delta)) (sum + delta)
  number field line sum :=
    if InWord sum then pure (UInt32.ofNat sum.toNat) else throw (.outOfRange field sum line)
  refuse e := throw (.other e)

/-- Reads a mappings text with integers. -/
def checkedDecode (text : String) : Checked Refusal Mappings :=
  (checkedReading allowed).read text

end Reading

/-! ### Checks -/

section Reading

variable (allowed : Step → Prop) [DecidablePred allowed]

/-- A word is checked as the integer that it stands for. -/
theorem number_toInt (field : Field) (line : UInt32) (value : Int64) :
    (checkedReading allowed).number field line value.toInt =
      .of Error.refusal id (readWords.number field line value) := by
  have hbounds : InWord value.toInt ↔ 0 ≤ value ∧ value ≤ 4294967295 := by
    rw [Int64.le_iff_toInt_le, Int64.le_iff_toInt_le]
    rfl
  show (if InWord value.toInt then _ else _) = Checked.of _ _ (word32 field line value)
  rw [word32]
  by_cases h : InWord value.toInt
  · rw [if_pos h, if_pos (hbounds.1 h)]
    rfl
  · rw [if_neg h, if_neg fun hword ↦ h (hbounds.2 hword)]
    rfl

theorem position_checkedReading (line column : UInt32) :
    (checkedReading allowed).position line column =
      .of Error.refusal id (readWords.position line column) := by
  rw [ReadArithmetic.position, ReadArithmetic.position, zeroBased]
  cases Position.ofZeroBased line column <;> rfl

theorem origin_toInt (totals : Totals Int64) (line : UInt32) (name : Option UInt32) :
    (checkedReading allowed).origin totals.toInt line name =
      .of Error.refusal id (readWords.origin totals line name) := by
  refine Checked.bind_eq_of (number_toInt allowed _ _ _) fun source _ ↦ ?_
  refine Checked.bind_eq_of (number_toInt allowed _ _ _) fun sourceLine _ ↦ ?_
  refine Checked.bind_eq_of (number_toInt allowed _ _ _) fun sourceColumn _ ↦ ?_
  exact Checked.bind_eq_of (position_checkedReading allowed _ _) fun position _ ↦ rfl

end Reading

/-! ### Additions -/

theorem inWord_toNat (n : UInt32) : InWord n.toNat := by
  have hlt : n.toNat < 4294967296 := n.toNat_lt
  exact ⟨Int.natCast_nonneg _, by omega⟩

theorem Step.inRange_sum (field : Field) (n : UInt32) {value : Int64} (h : Vlq.Fits value) :
    (Step.sum field (widen n).toInt value.toInt).InRange := by
  have hword := inWord_toNat n
  rw [← toInt_widen] at hword
  obtain ⟨hlow, hhigh⟩ := hword
  have hvalue : value.toInt.natAbs < 2 ^ 59 := h
  exact ⟨⟨hlow, hhigh⟩, by omega⟩

/-- A 64-bit word holds the sum of a 32-bit number and a quantity. -/
theorem toInt_widen_add (n : UInt32) {value : Int64} (h : Vlq.Fits value) :
    (widen n + value).toInt = (widen n).toInt + value.toInt := by
  obtain ⟨-, hrange⟩ := Step.inRange_sum .generatedColumn n h
  rw [Int64.toInt_add]
  exact Int.bmod_eq_of_le (by omega) (by omega)

/-! ### Cursors in reading -/

namespace Cursor.Narrow

variable {cursor : Cursor Int64} {index : UInt32} {totals : Totals Int64}

theorem withColumn (h : cursor.Narrow) (n : UInt32) :
    Cursor.Narrow { cursor with column := widen n } :=
  ⟨⟨n, rfl⟩, h.source, h.line, h.sourceColumn, h.name⟩

/-- Reading one piece leaves 32-bit numbers. -/
theorem of_decodePiece (h : cursor.Narrow) {piece : List Char} {s : Segment} {column : Int64}
    (hpiece : decodePiece index cursor.column cursor.totals piece = .ok (s, column, totals)) :
    Cursor.Narrow { cursor with column, totals } := by
  obtain ⟨-, -, -, values, -, hadvance⟩ := Mappings.of_decodePiece hpiece
  have hafter := h.advance s
  rw [hadvance] at hafter
  exact ⟨hafter.column, hafter.source, hafter.line, hafter.sourceColumn, hafter.name⟩

/-- So does reading the pieces of a line. -/
theorem of_decodePieces (h : cursor.Narrow) {done segments : Array Segment}
    {pieces : List (List Char)}
    (hpieces : decodePieces index done cursor.column cursor.totals pieces =
      .ok (segments, totals)) : Cursor.Narrow { cursor with totals } := by
  induction pieces generalizing cursor done with
  | nil =>
    obtain ⟨-, rfl⟩ := Prod.mk.inj (Except.ok.inj hpieces)
    exact h
  | cons piece pieces ih =>
    rcases piece with - | ⟨c, cs⟩
    · exact ih h hpieces
    · rw [decodePieces_cons] at hpieces
      · split at hpieces
        next => cases hpieces
        next s column after hpiece =>
          -- the column moves from piece to piece, but only the sums outlive the line
          obtain ⟨n, hn⟩ := h.column
          have hafter := (ih (h.of_decodePiece hpiece) hpieces).withColumn n
          rwa [← hn] at hafter
      · exact List.cons_ne_nil c cs

/-- And so does reading a line. -/
theorem of_decodeLine (h : cursor.Narrow) {line : List Char} {segments : List Segment}
    (hline : decodeLine index cursor.totals line = .ok (segments, totals)) :
    Cursor.Narrow { cursor with totals } := by
  rw [decodeLine_eq] at hline
  split at hline
  next => cases hline
  next read after hpieces =>
    obtain ⟨-, rfl⟩ := Prod.mk.inj (Except.ok.inj hline)
    obtain ⟨n, hn⟩ := h.column
    -- the column starts anew on the line, and is what it was behind it
    have hafter := ((h.withColumn 0).of_decodePieces hpieces).withColumn n
    rwa [← hn] at hafter

end Cursor.Narrow

/-! ### Reading with words is reading with integers -/

/-- Whether all of the quantities of a piece are short ones. -/
def Deltas.Fits : Deltas Int64 → Prop
  | .generated column => Vlq.Fits column
  | .mapped column source sourceLine sourceColumn =>
    Vlq.Fits column ∧ Vlq.Fits source ∧ Vlq.Fits sourceLine ∧ Vlq.Fits sourceColumn
  | .named column source sourceLine sourceColumn name =>
    Vlq.Fits column ∧ Vlq.Fits source ∧ Vlq.Fits sourceLine ∧ Vlq.Fits sourceColumn ∧
      Vlq.Fits name

theorem Deltas.Fits.column {deltas : Deltas Int64} (h : deltas.Fits) : Vlq.Fits deltas.column := by
  cases deltas with
  | generated => exact h
  | mapped => exact h.1
  | named => exact h.1

theorem fits_of_ofValues? {values : List Int64} {deltas : Deltas Int64}
    (hdeltas : Deltas.ofValues? values = some deltas) (h : ∀ value ∈ values, Vlq.Fits value) :
    deltas.Fits := by
  unfold Deltas.ofValues? at hdeltas
  split at hdeltas
  next => exact Option.some.inj hdeltas ▸ by simpa [Deltas.Fits] using h
  next => exact Option.some.inj hdeltas ▸ by simpa [Deltas.Fits] using h
  next => exact Option.some.inj hdeltas ▸ by simpa [Deltas.Fits] using h
  next => cases hdeltas

theorem fits_of_quantities {text : String} {values : List Int64}
    (h : readWords.quantities text = .ok values) : ∀ value ∈ values, Vlq.Fits value := by
  have hread : (Vlq.decode text).mapError Error.quantity = .ok values := h
  rcases hdecode : Vlq.decode text with e | values'
  · rw [hdecode] at hread
    cases hread
  · rw [hdecode] at hread
    exact Except.ok.inj hread ▸ Vlq.fits_of_decode hdecode

section Reading

variable {allowed : Step → Prop} [DecidablePred allowed]
  (hallowed : ∀ step : Step, step.InRange → allowed step)

include hallowed

/-- Adding a quantity to a 32-bit number is allowed, and words add alike. -/
theorem add_toInt (field : Field) {total value : Int64} (htotal : ∃ n, total = widen n)
    (hvalue : Vlq.Fits value) :
    (checkedReading allowed).add field total.toInt value.toInt =
      .of Error.refusal Int64.toInt (readWords.add field total value) := by
  obtain ⟨n, rfl⟩ := htotal
  show Checked.step _ _ = pure (widen n + value).toInt
  rw [Checked.step_of_allowed (hallowed _ (Step.inRange_sum field n hvalue)),
    toInt_widen_add n hvalue]

theorem quantities_toInt (text : String) :
    (checkedReading allowed).quantities text =
      .of Error.refusal (List.map Int64.toInt) (readWords.quantities text) := by
  have hquantity : ∀ step : Vlq.Step, step.InRange → allowed (.quantity step) :=
    fun step hstep ↦ hallowed (.quantity step) hstep
  show (Vlq.checkedDecode _ text).adapt _ = Checked.of _ _ ((Vlq.decode text).mapError _)
  rw [Vlq.checkedDecode_eq hquantity, Checked.adapt_of]
  cases Vlq.decode text <;> rfl

section Piece

variable {cursor : Cursor Int64} (hnarrow : cursor.Narrow)

include hnarrow

theorem move_toInt {source sourceLine sourceColumn : Int64} (hsource : Vlq.Fits source)
    (hsourceLine : Vlq.Fits sourceLine) (hsourceColumn : Vlq.Fits sourceColumn) :
    (checkedReading allowed).move cursor.totals.toInt source.toInt sourceLine.toInt
        sourceColumn.toInt =
      .of Error.refusal Totals.toInt
        (readWords.move cursor.totals source sourceLine sourceColumn) := by
  refine Checked.bind_eq_of (add_toInt hallowed _ hnarrow.source hsource) fun _ _ ↦ ?_
  refine Checked.bind_eq_of (add_toInt hallowed _ hnarrow.line hsourceLine) fun _ _ ↦ ?_
  exact Checked.bind_eq_of (add_toInt hallowed _ hnarrow.sourceColumn hsourceColumn) fun _ _ ↦ rfl

/-- The quantities behind the first one of a piece. -/
theorem advance_toInt {deltas : Deltas Int64} (hdeltas : deltas.Fits) (line : UInt32) :
    (checkedReading allowed).advance cursor.totals.toInt line deltas.toInt =
      .of Error.refusal (fun (origin, after) ↦ (origin, after.toInt))
        (readWords.advance cursor.totals line deltas) := by
  cases deltas with
  | generated column => rfl
  | mapped column source sourceLine sourceColumn =>
    obtain ⟨-, hsource, hsourceLine, hsourceColumn⟩ := hdeltas
    have hmove := move_toInt hallowed hnarrow hsource hsourceLine hsourceColumn
    refine Checked.bind_eq_of hmove fun after _ ↦ ?_
    exact Checked.bind_eq_of (origin_toInt allowed after line none) fun origin _ ↦ rfl
  | named column source sourceLine sourceColumn name =>
    obtain ⟨-, hsource, hsourceLine, hsourceColumn, hname⟩ := hdeltas
    have hmove := move_toInt hallowed hnarrow hsource hsourceLine hsourceColumn
    refine Checked.bind_eq_of hmove fun after hafter ↦ ?_
    -- moving leaves the name alone
    obtain rfl := Except.ok.inj hafter
    refine Checked.bind_eq_of (add_toInt hallowed _ hnarrow.name hname) fun sum _ ↦ ?_
    refine Checked.bind_eq_of (number_toInt allowed _ _ sum) fun index _ ↦ ?_
    exact Checked.bind_eq_of (origin_toInt allowed ⟨_, _, _, sum⟩ line (some index))
      fun origin _ ↦ rfl

/-- A piece is read with integers as it is with words. -/
theorem piece_toInt (index : UInt32) (piece : List Char) :
    (checkedReading allowed).piece index cursor.column.toInt cursor.totals.toInt piece =
      .of Error.refusal (fun (s, column, totals) ↦ (s, column.toInt, totals.toInt))
        (readWords.piece index cursor.column cursor.totals piece) := by
  refine Checked.bind_eq_of (quantities_toInt hallowed _) fun values hvalues ↦ ?_
  rw [ofValues?_map_toInt, List.length_map]
  rcases hdeltas : Deltas.ofValues? values with - | deltas
  · rfl
  have hfits : deltas.Fits := fits_of_ofValues? hdeltas (fits_of_quantities hvalues)
  rw [Option.map_some]
  dsimp only
  rw [Deltas.column_toInt]
  have hadd := add_toInt hallowed .generatedColumn hnarrow.column hfits.column
  refine Checked.bind_eq_of hadd fun column _ ↦ ?_
  refine Checked.bind_eq_of (number_toInt allowed _ _ column) fun generatedColumn _ ↦ ?_
  refine Checked.bind_eq_of (position_checkedReading allowed _ _) fun generated _ ↦ ?_
  exact Checked.bind_eq_of (advance_toInt hallowed hnarrow hfits _) fun result _ ↦ rfl

theorem pieces_toInt (index : UInt32) (done : Array Segment) (pieces : List (List Char)) :
    (checkedReading allowed).pieces index done cursor.column.toInt cursor.totals.toInt pieces =
      .of Error.refusal (fun (segments, totals) ↦ (segments, totals.toInt))
        (readWords.pieces index done cursor.column cursor.totals pieces) := by
  induction pieces generalizing cursor done with
  | nil => rfl
  | cons piece pieces ih =>
    rcases piece with - | ⟨c, cs⟩
    · exact ih hnarrow done
    · have hread := piece_toInt hallowed hnarrow index (c :: cs)
      refine Checked.bind_eq_of hread fun result hpiece ↦ ?_
      obtain ⟨s, column, totals⟩ := result
      exact ih (hnarrow.of_decodePiece hpiece) (done.push s)

theorem line_toInt (index : UInt32) (line : List Char) :
    (checkedReading allowed).line index cursor.totals.toInt line =
      .of Error.refusal (fun (segments, totals) ↦ (segments, totals.toInt))
        (readWords.line index cursor.totals line) := by
  have hpieces : (checkedReading allowed).pieces index #[] 0 cursor.totals.toInt
      (line.splitOn ',') = .of Error.refusal (fun (segments, totals) ↦ (segments, totals.toInt))
        (readWords.pieces index #[] 0 cursor.totals (line.splitOn ',')) :=
    pieces_toInt hallowed (hnarrow.withColumn 0) index #[] (line.splitOn ',')
  exact Checked.bind_eq_of hpieces fun result _ ↦ rfl

/-- Lines are read with integers as they are with words. -/
theorem lines_toInt (done : Array Segment) (index : Nat) (lines : List (List Char)) :
    (checkedReading allowed).lines done cursor.totals.toInt index lines =
      .of Error.refusal id (readWords.lines done cursor.totals index lines) := by
  induction lines generalizing cursor done index with
  | nil => rfl
  | cons line lines ih =>
    rw [ReadArithmetic.lines, ReadArithmetic.lines]
    split
    next =>
      refine Checked.bind_eq_of (line_toInt hallowed hnarrow _ line) fun result hline ↦ ?_
      obtain ⟨segments, totals⟩ := result
      exact ih (hnarrow.of_decodeLine hline) _ (index + 1)
    next => rfl

end Piece

/-- Reading a text takes no step out of range, and its words are the integers that they stand
for. -/
theorem checkedDecode_eq (text : String) :
    checkedDecode allowed text = .of Error.refusal id (decode text) := by
  have hlines : (checkedReading allowed).lines #[] {} 0 (text.toList.splitOn ';') =
      .of Error.refusal id (readWords.lines #[] {} 0 (text.toList.splitOn ';')) :=
    lines_toInt hallowed Cursor.Narrow.start #[] 0 (text.toList.splitOn ';')
  have hsegments : (checkedReading allowed).segments text =
      .of Error.refusal id (readWords.segments text) :=
    Checked.bind_eq_of hlines fun segments _ ↦ rfl
  exact Checked.bind_eq_of hsegments fun segments _ ↦ rfl

theorem run_checkedDecode (text : String) :
    (checkedDecode allowed text).run = some ((decode text).mapError Error.refusal) := by
  rw [checkedDecode_eq hallowed]
  cases decode text <;> rfl

end Reading

/-! ### Writing with steps that must be allowed -/

/-- A step of arithmetic in writing. -/
inductive WriteStep where
  /-- A number is taken from another. -/
  | difference (current previous : Int)
  /-- A magnitude is shifted up to make room for the sign. -/
  | shift (magnitude : Nat)
deriving DecidableEq, Repr

/-- Whether what a step computes lies in range: a difference in that of two 32-bit numbers, and a
magnitude with its sign in 64 bits. -/
def WriteStep.InRange : WriteStep → Prop
  | difference current previous => -2 ^ 32 < current - previous ∧ current - previous < 2 ^ 32
  | shift magnitude => 2 * magnitude + 1 < 2 ^ 64

instance : DecidablePred WriteStep.InRange
  | .difference _ _ => inferInstanceAs (Decidable (_ ∧ _))
  | .shift _ => inferInstanceAs (Decidable (_ < _))

section Writing

variable (allowed : WriteStep → Prop) [DecidablePred allowed]

/-- The arithmetic of integers, whose steps must be allowed. -/
def checkedWriting : WriteArithmetic Option Int where
  number n := n.toNat
  sub current previous := outcome? (allowed (.difference current previous)) (current - previous)
  word delta := outcome? (allowed (.shift delta.natAbs))
    (2 * delta.natAbs + if delta < 0 then 1 else 0)

/-- The mappings text of segments, written with integers. -/
def checkedEncode (segments : List Segment) : Option String :=
  (checkedWriting allowed).write segments

end Writing

/-! ### Writing with words is writing with integers -/

/-- The cursor of integers that stands where a cursor of words does. -/
def Cursor.toInt (cursor : Cursor Int64) : Cursor Int :=
  ⟨cursor.line, cursor.occupied, cursor.column.toInt, cursor.totals.toInt⟩

theorem toInt_toLine (cursor : Cursor Int64) (line : Nat) :
    cursor.toInt.toLine line = (cursor.toLine line).toInt := by
  rw [Cursor.toLine, Cursor.toLine]
  show (if cursor.line < line then _ else _) = _
  split <;> rfl

theorem number_checkedWriting (allowed : WriteStep → Prop) [DecidablePred allowed] (n : UInt32) :
    (checkedWriting allowed).number n = (widen n).toInt :=
  (toInt_widen n).symm

section Writing

variable {allowed : WriteStep → Prop} [DecidablePred allowed]
  (hallowed : ∀ step : WriteStep, step.InRange → allowed step)

include hallowed

/-- Taking a 32-bit number from another is allowed, and words subtract alike. -/
theorem sub_toInt (m : UInt32) {total : Int64} (htotal : ∃ n, total = widen n) :
    (checkedWriting allowed).sub (widen m).toInt total.toInt = some (widen m - total).toInt := by
  obtain ⟨n, rfl⟩ := htotal
  have hm : m.toNat < 4294967296 := m.toNat_lt
  have hn : n.toNat < 4294967296 := n.toNat_lt
  have hrange : (WriteStep.difference (widen m).toInt (widen n).toInt).InRange := by
    rw [toInt_widen, toInt_widen]
    exact ⟨by omega, by omega⟩
  show outcome? _ _ = _
  rw [outcome?_of_allowed (hallowed _ hrange), toInt_widen_sub_widen, toInt_widen, toInt_widen]

/-- Shifting the magnitude of a quantity up loses no bit. -/
theorem quantity_toInt {value : Int64} (hvalue : Vlq.Fits value) :
    (checkedWriting allowed).quantity value.toInt = some (Vlq.encodeOne value) := by
  have hmagnitude : value.toInt.natAbs < 2 ^ 59 := hvalue
  have hrange : (WriteStep.shift value.toInt.natAbs).InRange := by
    show 2 * _ + 1 < 2 ^ 64
    omega
  have hsign : value.toInt < 0 ↔ value < 0 := (Int64.lt_iff_toInt_lt (y := 0)).symm
  show (outcome? _ _ >>= _) = _
  rw [outcome?_of_allowed (hallowed _ hrange), Vlq.encodeOne,
    Vlq.toNat_toWord (Nat.lt_trans hmagnitude (by decide))]
  simp only [hsign]
  rfl

theorem mapM_quantity_toInt {values : List Int64} (hvalues : ∀ value ∈ values, Vlq.Fits value) :
    (values.map Int64.toInt).mapM (checkedWriting allowed).quantity =
      some (values.map Vlq.encodeOne) := by
  induction values with
  | nil => rfl
  | cons value values ih =>
    rw [List.map_cons, List.mapM_cons, quantity_toInt hallowed (hvalues value List.mem_cons_self),
      ih fun v hv ↦ hvalues v (List.mem_cons_of_mem value hv)]
    rfl

section Segment

variable {cursor : Cursor Int64} (hnarrow : cursor.Narrow)

include hnarrow

theorem deltasTo_toInt (origin : Origin) :
    (checkedWriting allowed).deltasTo cursor.totals.toInt origin =
      some ((cursor.totals.deltasTo origin).1.map Int64.toInt,
        (cursor.totals.deltasTo origin).2.toInt) := by
  obtain ⟨source, position, name⟩ := origin
  rw [WriteArithmetic.deltasTo, Totals.deltasTo_eq, Totals.toInt]
  simp only [number_checkedWriting]
  rw [sub_toInt hallowed _ hnarrow.source, sub_toInt hallowed _ hnarrow.line,
    sub_toInt hallowed _ hnarrow.sourceColumn]
  cases name with
  | none => rfl
  | some index =>
    simp only [sub_toInt hallowed _ hnarrow.name]
    rfl

theorem originDeltas_toInt (origin : Option Origin) :
    (checkedWriting allowed).originDeltas cursor.totals.toInt origin =
      some ((writeWords.originDeltas cursor.totals origin).run.1.map Int64.toInt,
        (writeWords.originDeltas cursor.totals origin).run.2.toInt) := by
  cases origin with
  | none => rfl
  | some origin => exact deltasTo_toInt hallowed hnarrow origin

/-- The differences of a segment are those that integers have. -/
theorem advance_cursor_toInt (s : Segment) :
    (checkedWriting allowed).advance cursor.toInt s =
      some ((cursor.advance s).1.map Int64.toInt, (cursor.advance s).2.toInt) := by
  rw [WriteArithmetic.advance, Cursor.toInt, number_checkedWriting]
  dsimp only
  rw [sub_toInt hallowed _ hnarrow.column, originDeltas_toInt hallowed hnarrow]
  rfl

/-- A segment is written with integers as it is with words. -/
theorem segment_toInt (s : Segment) :
    (checkedWriting allowed).segment cursor.toInt s =
      some ((cursor.write s).1, (cursor.write s).2.toInt) := by
  have hmoved := hnarrow.toLine s.generated.line.toNat
  rw [WriteArithmetic.segment, toInt_toLine, advance_cursor_toInt hallowed hmoved, Cursor.write_eq]
  show ((_ : List Int).mapM (checkedWriting allowed).quantity >>= _) = _
  rw [mapM_quantity_toInt hallowed (hmoved.fits s)]
  show some (_, _) = _
  rw [← List.flatMap_def]
  rfl

theorem writeFrom_toInt (out : String) (segments : List Segment) :
    (checkedWriting allowed).writeFrom out cursor.toInt segments =
      some (encodeFrom out cursor segments) := by
  induction segments generalizing out cursor with
  | nil => rfl
  | cons s segments ih =>
    rw [WriteArithmetic.writeFrom, segment_toInt hallowed hnarrow, encodeFrom_cons]
    exact ih ((hnarrow.toLine s.generated.line.toNat).advance s) _

end Segment

/-- Writing takes no step out of range, and its words are the integers that they stand for. -/
theorem checkedEncode_eq (segments : List Segment) :
    checkedEncode allowed segments = some (encode segments) :=
  writeFrom_toInt hallowed Cursor.Narrow.start "" segments

end Writing

end SourceChain.Mappings
