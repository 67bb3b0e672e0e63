import SourceChain.Mappings.Basic

/-!
# The mappings text

Lines are divided by semicolons and the segments of a line by commas. A segment is a run of one,
four or five quantities, each the difference from the same quantity of an earlier segment: the
generated column starts anew on every line, and the others run on through the whole text.

The sums are kept in 64-bit words and must fit 32 bits without a sign wherever a segment uses them.
Empty pieces are skipped. A line whose segments are out of column order is sorted stably, so that
segments in one column keep the order of the text.

Reading and writing are written once for whatever sums are kept in (`ReadArithmetic`,
`WriteArithmetic`). What runs is both of them in words (`decode`, `encode`).
-/

namespace SourceChain.Mappings

/-! ### Sums and differences -/

/-- The sums that run on from line to line. -/
structure Totals (ν : Type) [OfNat ν 0] where
  /-- The source index. -/
  source : ν := 0
  /-- The source line, counted from zero. -/
  line : ν := 0
  /-- The source column. -/
  column : ν := 0
  /-- The name index. -/
  name : ν := 0
deriving DecidableEq, Repr

/-- The quantities of a piece by what they are added to. -/
inductive Deltas (ν : Type) where
  /-- A segment that was only generated. -/
  | generated (column : ν)
  /-- A segment with an origin. -/
  | mapped (column source sourceLine sourceColumn : ν)
  /-- A segment with an origin and a name. -/
  | named (column source sourceLine sourceColumn name : ν)
deriving DecidableEq, Repr

namespace Deltas

variable {ν : Type}

/-- What a run of quantities says, if it has a length that means something. -/
def ofValues? : List ν → Option (Deltas ν)
  | [column] => some (generated column)
  | [column, source, line, sourceColumn] => some (mapped column source line sourceColumn)
  | [column, source, line, sourceColumn, name] =>
    some (named column source line sourceColumn name)
  | _ => none

/-- The difference in generated column. -/
def column : Deltas ν → ν
  | generated column => column
  | mapped column _ _ _ => column
  | named column _ _ _ _ => column

end Deltas

/-! ### Reading -/

/-- A position on a line counted from zero. -/
def zeroBased (line column : UInt32) : Except Error Position :=
  match Position.ofZeroBased line column with
  | .ok p => .ok p
  | .error e => .error (.position e)

/-- The line that a message names, one past the line counted from zero if 32 bits hold it. -/
def displayLine (index : UInt32) : UInt32 :=
  if index.toNat + 1 < UInt32.size then index + 1 else index

/-- The arithmetic that a mappings text is read with. Any step of it may put an end to reading. -/
structure ReadArithmetic (μ : Type → Type) (ν : Type) where
  /-- The quantities of a text. -/
  quantities (text : String) : μ (List ν)
  /-- Adds a quantity to a sum. -/
  add (field : Field) (sum delta : ν) : μ ν
  /-- The 32-bit number that a sum stands for. -/
  number (field : Field) (line : UInt32) (sum : ν) : μ UInt32
  /-- Ends reading with an error that reports no sum. -/
  refuse {α : Type} (e : Error) : μ α

namespace ReadArithmetic

variable {μ : Type → Type} {ν : Type} [OfNat ν 0] [Monad μ] (arith : ReadArithmetic μ ν)

/-- A position on a line counted from zero, or an end to reading. -/
@[specialize]
def position (line column : UInt32) : μ Position :=
  match zeroBased line column with
  | .ok p => pure p
  | .error e => arith.refuse e

/-- The origin that the sums point at; `name` is its name index already read. -/
@[specialize]
def origin (totals : Totals ν) (line : UInt32) (name : Option UInt32) : μ Origin := do
  let source ← arith.number .sourceIndex line totals.source
  let sourceLine ← arith.number .sourceLine line totals.line
  let sourceColumn ← arith.number .sourceColumn line totals.column
  let position ← arith.position sourceLine sourceColumn
  return ⟨source, position, name⟩

/-- The sums with the quantities of an origin added. -/
@[specialize]
def move (totals : Totals ν) (source sourceLine sourceColumn : ν) : μ (Totals ν) := do
  let source ← arith.add .sourceIndex totals.source source
  let sourceLine ← arith.add .sourceLine totals.line sourceLine
  let sourceColumn ← arith.add .sourceColumn totals.column sourceColumn
  return ⟨source, sourceLine, sourceColumn, totals.name⟩

/-- The sums after a piece, and the origin that it has. The name is checked before the rest. -/
@[specialize]
def advance (totals : Totals ν) (line : UInt32) : Deltas ν → μ (Option Origin × Totals ν)
  | .generated _ => return (none, totals)
  | .mapped _ source sourceLine sourceColumn => do
    let totals ← arith.move totals source sourceLine sourceColumn
    let origin ← arith.origin totals line none
    return (some origin, totals)
  | .named _ source sourceLine sourceColumn name => do
    let totals ← arith.move totals source sourceLine sourceColumn
    let sum ← arith.add .nameIndex totals.name name
    let totals := { totals with name := sum }
    let index ← arith.number .nameIndex line totals.name
    let origin ← arith.origin totals line (some index)
    return (some origin, totals)

/-- Reads one piece on the line with the given index, where the generated column stands at
`column`: the segment, and both kinds of sums after it. -/
@[specialize]
def piece (index : UInt32) (column : ν) (totals : Totals ν) (piece : List Char) :
    μ (Segment × ν × Totals ν) := do
  let text := String.ofList piece
  let values ← arith.quantities text
  match Deltas.ofValues? values with
  | none => arith.refuse (.fieldCount text values.length)
  | some deltas => do
    let line := displayLine index
    let column ← arith.add .generatedColumn column deltas.column
    let generatedColumn ← arith.number .generatedColumn line column
    let generated ← arith.position index generatedColumn
    let (origin, totals) ← arith.advance totals line deltas
    return (⟨generated, origin⟩, column, totals)

/-- Reads the pieces of one line in turn, after the segments `done`. -/
@[specialize]
def pieces (index : UInt32) (done : Array Segment) (column : ν) (totals : Totals ν) :
    List (List Char) → μ (Array Segment × Totals ν)
  | [] => return (done, totals)
  | [] :: rest => pieces index done column totals rest
  | piece :: rest => do
    let (segment, column, totals) ← arith.piece index column totals piece
    pieces index (done.push segment) column totals rest

/-- The segments of one line, sorted stably by column, and the sums after it. -/
@[specialize]
def line (index : UInt32) (totals : Totals ν) (line : List Char) :
    μ (List Segment × Totals ν) := do
  let (segments, totals) ← arith.pieces index #[] 0 totals (line.splitOn ',')
  return (segments.toList.mergeSort fun a b ↦ a.generated.column ≤ b.generated.column, totals)

/-- Reads the lines from the one with the given index on, after the segments `done`. -/
@[specialize]
def lines (done : Array Segment) (totals : Totals ν) (index : Nat) :
    List (List Char) → μ (Array Segment)
  | [] => return done
  | line :: rest =>
    if index < UInt32.size then do
      let (segments, totals) ← arith.line (UInt32.ofNat index) totals line
      lines (done ++ segments) totals (index + 1) rest
    else arith.refuse (.position (.lineOutOfRange index))

/-- The segments of a mappings text. -/
@[specialize]
def segments (text : String) : μ (List Segment) := do
  let segments ← arith.lines #[] {} 0 (text.toList.splitOn ';')
  return segments.toList

/-- Reads a mappings text. -/
@[specialize]
def read (text : String) : μ Mappings := do
  let segments ← arith.segments text
  return ofSorted segments

end ReadArithmetic

/-! ### Reading in words -/

/-- The 32-bit number that a running sum stands for. -/
def word32 (field : Field) (line : UInt32) (value : Int64) : Except Error UInt32 :=
  if 0 ≤ value ∧ value ≤ 4294967295 then .ok (UInt32.ofNat value.toNatClampNeg)
  else .error (.outOfRange field value line)

/-- The arithmetic of 64-bit words, which wraps. -/
def readWords : ReadArithmetic (Except Error) Int64 where
  quantities text := (Vlq.decode text).mapError .quantity
  add _ sum delta := .ok (sum + delta)
  number := word32
  refuse := .error

/-- The origin that sums in words point at. -/
def Totals.origin (totals : Totals Int64) (line : UInt32) (name : Option UInt32) :
    Except Error Origin :=
  readWords.origin totals line name

/-- The sums in words after a piece, and the origin that it has. -/
def Totals.advance (totals : Totals Int64) (line : UInt32) (deltas : Deltas Int64) :
    Except Error (Option Origin × Totals Int64) :=
  readWords.advance totals line deltas

/-- Reads one piece in words. -/
def decodePiece (index : UInt32) (column : Int64) (totals : Totals Int64) (piece : List Char) :
    Except Error (Segment × Int64 × Totals Int64) :=
  readWords.piece index column totals piece

/-- Reads the pieces of one line in words, after the segments `done`. -/
def decodePieces (index : UInt32) (done : Array Segment) (column : Int64) (totals : Totals Int64)
    (pieces : List (List Char)) : Except Error (Array Segment × Totals Int64) :=
  readWords.pieces index done column totals pieces

/-- Reads one line in words. -/
def decodeLine (index : UInt32) (totals : Totals Int64) (line : List Char) :
    Except Error (List Segment × Totals Int64) :=
  readWords.line index totals line

/-- Reads lines in words, after the segments `done`. -/
def decodeLines (done : Array Segment) (totals : Totals Int64) (index : Nat)
    (lines : List (List Char)) : Except Error (Array Segment) :=
  readWords.lines done totals index lines

/-- The segments of a mappings text, read in words. -/
def decodeSegments (text : String) : Except Error (List Segment) :=
  readWords.segments text

/-- Reads a mappings text in words. -/
def decode (text : String) : Except Error Mappings :=
  readWords.read text

theorem readWords_position (line column : UInt32) :
    readWords.position line column = zeroBased line column := by
  rw [ReadArithmetic.position]
  cases zeroBased line column <;> rfl

theorem Totals.origin_eq (totals : Totals Int64) (line : UInt32) (name : Option UInt32) :
    totals.origin line name = do
      let source ← word32 .sourceIndex line totals.source
      let sourceLine ← word32 .sourceLine line totals.line
      let sourceColumn ← word32 .sourceColumn line totals.column
      let position ← zeroBased sourceLine sourceColumn
      return ⟨source, position, name⟩ := by
  simp only [Totals.origin, ReadArithmetic.origin, readWords_position]
  rfl

theorem Totals.advance_generated (totals : Totals Int64) (line : UInt32) (column : Int64) :
    totals.advance line (.generated column) = .ok (none, totals) :=
  rfl

theorem Totals.advance_mapped (totals : Totals Int64) (line : UInt32)
    (column source sourceLine sourceColumn : Int64) :
    totals.advance line (.mapped column source sourceLine sourceColumn) = do
      let after : Totals Int64 := ⟨totals.source + source, totals.line + sourceLine,
        totals.column + sourceColumn, totals.name⟩
      let origin ← after.origin line none
      return (some origin, after) :=
  rfl

theorem Totals.advance_named (totals : Totals Int64) (line : UInt32)
    (column source sourceLine sourceColumn name : Int64) :
    totals.advance line (.named column source sourceLine sourceColumn name) = do
      let after : Totals Int64 := ⟨totals.source + source, totals.line + sourceLine,
        totals.column + sourceColumn, totals.name + name⟩
      let index ← word32 .nameIndex line after.name
      let origin ← after.origin line (some index)
      return (some origin, after) :=
  rfl

theorem decodePiece_eq (index : UInt32) (column : Int64) (totals : Totals Int64)
    (piece : List Char) :
    decodePiece index column totals piece =
      match Vlq.decode (String.ofList piece) with
      | .error e => .error (.quantity e)
      | .ok values =>
        match Deltas.ofValues? values with
        | none => .error (.fieldCount (String.ofList piece) values.length)
        | some deltas => do
          let generatedColumn ←
            word32 .generatedColumn (displayLine index) (column + deltas.column)
          let generated ← zeroBased index generatedColumn
          let (origin, totals) ← totals.advance (displayLine index) deltas
          return (⟨generated, origin⟩, column + deltas.column, totals) := by
  have hquantities : readWords.quantities (String.ofList piece) =
      (Vlq.decode (String.ofList piece)).mapError .quantity :=
    rfl
  simp only [decodePiece, ReadArithmetic.piece, hquantities, readWords_position]
  rcases Vlq.decode (String.ofList piece) with e | values
  · rfl
  · have hread : (Except.ok values : Except Vlq.Error _).mapError .quantity =
        (pure values : Except Error (List Int64)) :=
      rfl
    rw [hread, pure_bind]
    dsimp only
    cases Deltas.ofValues? values <;> rfl

theorem decodePieces_nil (index : UInt32) (done : Array Segment) (column : Int64)
    (totals : Totals Int64) : decodePieces index done column totals [] = .ok (done, totals) :=
  rfl

theorem decodePieces_nil_cons (index : UInt32) (done : Array Segment) (column : Int64)
    (totals : Totals Int64) (pieces : List (List Char)) :
    decodePieces index done column totals ([] :: pieces) =
      decodePieces index done column totals pieces :=
  rfl

theorem decodePieces_cons (index : UInt32) (done : Array Segment) (column : Int64)
    (totals : Totals Int64) {piece : List Char} (hpiece : piece ≠ [])
    (pieces : List (List Char)) :
    decodePieces index done column totals (piece :: pieces) =
      match decodePiece index column totals piece with
      | .error e => .error e
      | .ok (segment, column, totals) =>
        decodePieces index (done.push segment) column totals pieces := by
  rw [decodePieces, ReadArithmetic.pieces, decodePiece]
  · rcases readWords.piece index column totals piece with e | ⟨s, column, totals⟩ <;> rfl
  · exact hpiece

theorem decodeLine_eq (index : UInt32) (totals : Totals Int64) (line : List Char) :
    decodeLine index totals line =
      match decodePieces index #[] 0 totals (line.splitOn ',') with
      | .error e => .error e
      | .ok (segments, totals) =>
        .ok (segments.toList.mergeSort fun a b ↦ a.generated.column ≤ b.generated.column,
          totals) := by
  rw [decodeLine, ReadArithmetic.line, decodePieces]
  rcases readWords.pieces index #[] 0 totals (line.splitOn ',') with e | ⟨segments, totals⟩ <;> rfl

theorem decodeLines_nil (done : Array Segment) (totals : Totals Int64) (index : Nat) :
    decodeLines done totals index [] = .ok done :=
  rfl

theorem decodeLines_cons (done : Array Segment) (totals : Totals Int64) (index : Nat)
    (line : List Char) (lines : List (List Char)) :
    decodeLines done totals index (line :: lines) =
      if index < UInt32.size then
        match decodeLine (UInt32.ofNat index) totals line with
        | .error e => .error e
        | .ok (segments, totals) => decodeLines (done ++ segments) totals (index + 1) lines
      else .error (.position (.lineOutOfRange index)) := by
  rw [decodeLines, ReadArithmetic.lines, decodeLine]
  split
  next => rcases readWords.line (UInt32.ofNat index) totals line with e | ⟨segments, totals⟩ <;> rfl
  next => rfl

theorem decodeSegments_eq (text : String) :
    decodeSegments text =
      match decodeLines #[] {} 0 (text.toList.splitOn ';') with
      | .ok segments => .ok segments.toList
      | .error e => .error e := by
  rw [decodeSegments, ReadArithmetic.segments, decodeLines]
  cases readWords.lines #[] {} 0 (text.toList.splitOn ';') <;> rfl

theorem decode_eq (text : String) :
    decode text =
      match decodeSegments text with
      | .ok segments => .ok (ofSorted segments)
      | .error e => .error e := by
  rw [decode, ReadArithmetic.read, decodeSegments]
  cases readWords.segments text <;> rfl

/-! ### Writing -/

/-- Where writing stands: the current line, whether a segment has been written on it, and the
numbers that the next differences are taken from. -/
structure Cursor (ν : Type) [OfNat ν 0] where
  /-- The current generated line. -/
  line : Nat := 1
  /-- Whether the current line has a segment. -/
  occupied : Bool := false
  /-- The generated column of the last segment on the current line, or zero. -/
  column : ν := 0
  /-- The source, its line and column, and the name that were written last. -/
  totals : Totals ν := {}
deriving DecidableEq, Repr

/-- The cursor on the line of a segment: a line that lies ahead is started anew, and a line that
lies behind is not gone back to. -/
def Cursor.toLine {ν : Type} [OfNat ν 0] (cursor : Cursor ν) (line : Nat) : Cursor ν :=
  if cursor.line < line then { cursor with line, occupied := false, column := 0 } else cursor

/-- The arithmetic that a mappings text is written with. A step of it may put an end to writing. -/
structure WriteArithmetic (μ : Type → Type) (ν : Type) where
  /-- A 32-bit number among those that differences are taken of. -/
  number (n : UInt32) : ν
  /-- The difference of a number from the one that was written last. -/
  sub (current previous : ν) : μ ν
  /-- The word that is written for a quantity. -/
  word (delta : ν) : μ Nat

namespace WriteArithmetic

variable {μ : Type → Type} {ν : Type} [OfNat ν 0] [Monad μ] (arith : WriteArithmetic μ ν)

/-- The differences that an origin is written as, and the numbers that it leaves. -/
@[specialize]
def deltasTo (totals : Totals ν) (origin : Origin) : μ (List ν × Totals ν) := do
  let source := arith.number origin.source
  let line := arith.number origin.position.zeroBasedLine
  let column := arith.number origin.position.column
  let toSource ← arith.sub source totals.source
  let toLine ← arith.sub line totals.line
  let toColumn ← arith.sub column totals.column
  match origin.name with
  | none => return ([toSource, toLine, toColumn], ⟨source, line, column, totals.name⟩)
  | some name => do
    let name := arith.number name
    let toName ← arith.sub name totals.name
    return ([toSource, toLine, toColumn, toName], ⟨source, line, column, name⟩)

/-- The differences behind the first one of a segment, and the numbers that they leave. -/
@[specialize]
def originDeltas (totals : Totals ν) : Option Origin → μ (List ν × Totals ν)
  | none => return ([], totals)
  | some origin => arith.deltasTo totals origin

/-- The differences that a segment is written as, and the cursor after it. -/
@[specialize]
def advance (cursor : Cursor ν) (s : Segment) : μ (List ν × Cursor ν) := do
  let column := arith.number s.generated.column
  let toColumn ← arith.sub column cursor.column
  let (deltas, totals) ← arith.originDeltas cursor.totals s.origin
  return (toColumn :: deltas, ⟨cursor.line, true, column, totals⟩)

/-- The characters of one quantity. -/
@[specialize]
def quantity (delta : ν) : μ (List Char) := do
  let word ← arith.word delta
  return Vlq.encodeWord word

/-- The text of one segment, with the semicolons or the comma in front, and the cursor after it. -/
@[specialize]
def segment (cursor : Cursor ν) (s : Segment) : μ (List Char × Cursor ν) := do
  let line := s.generated.line.toNat
  let moved := cursor.toLine line
  let (deltas, after) ← arith.advance moved s
  let quantities ← deltas.mapM arith.quantity
  return (List.replicate (line - cursor.line) ';' ++ (if moved.occupied then [','] else [])
    ++ quantities.flatten, after)

/-- Appends the text of segments to `out`. -/
@[specialize]
def writeFrom (out : String) (cursor : Cursor ν) : List Segment → μ String
  | [] => return out
  | s :: rest => do
    let (piece, cursor) ← arith.segment cursor s
    writeFrom (out ++ String.ofList piece) cursor rest

/-- The mappings text of segments. -/
@[specialize]
def write (segments : List Segment) : μ String :=
  arith.writeFrom "" {} segments

end WriteArithmetic

/-! ### Writing in words -/

/-- A 32-bit number in a 64-bit word. -/
def widen (n : UInt32) : Int64 :=
  Int64.ofNat n.toNat

/-- The arithmetic of 64-bit words, which wraps. Nothing puts an end to it. -/
def writeWords : WriteArithmetic Id Int64 where
  number := widen
  sub current previous := current - previous
  word delta := (Vlq.toWord delta).toNat

/-- The differences in words that an origin is written as, and the numbers that it leaves. -/
def Totals.deltasTo (totals : Totals Int64) (origin : Origin) : List Int64 × Totals Int64 :=
  Id.run (writeWords.deltasTo totals origin)

/-- The differences in words that a segment is written as, and the cursor after it. -/
def Cursor.advance (cursor : Cursor Int64) (s : Segment) : List Int64 × Cursor Int64 :=
  Id.run (writeWords.advance cursor s)

/-- The text of one segment, written in words, and the cursor after it. -/
def Cursor.write (cursor : Cursor Int64) (s : Segment) : List Char × Cursor Int64 :=
  Id.run (writeWords.segment cursor s)

/-- Appends the text of segments to `out`, written in words. -/
def encodeFrom (out : String) (cursor : Cursor Int64) (segments : List Segment) : String :=
  Id.run (writeWords.writeFrom out cursor segments)

/-- The mappings text of segments, written in words. -/
def encode (segments : List Segment) : String :=
  Id.run (writeWords.write segments)

theorem Totals.deltasTo_eq (totals : Totals Int64) (origin : Origin) :
    totals.deltasTo origin =
      let source := widen origin.source
      let line := widen origin.position.zeroBasedLine
      let column := widen origin.position.column
      match origin.name with
      | none =>
        ([source - totals.source, line - totals.line, column - totals.column],
          ⟨source, line, column, totals.name⟩)
      | some name =>
        ([source - totals.source, line - totals.line, column - totals.column,
            widen name - totals.name],
          ⟨source, line, column, widen name⟩) := by
  obtain ⟨source, position, _ | name⟩ := origin <;> rfl

theorem Cursor.advance_eq (cursor : Cursor Int64) (s : Segment) :
    cursor.advance s =
      let column := widen s.generated.column
      let rest := match s.origin with
        | none => ([], cursor.totals)
        | some origin => cursor.totals.deltasTo origin
      ((column - cursor.column) :: rest.1, ⟨cursor.line, true, column, rest.2⟩) := by
  obtain ⟨generated, _ | origin⟩ := s <;> rfl

theorem Cursor.write_eq (cursor : Cursor Int64) (s : Segment) :
    cursor.write s =
      let line := s.generated.line.toNat
      let moved := cursor.toLine line
      (List.replicate (line - cursor.line) ';' ++ (if moved.occupied then [','] else [])
        ++ (moved.advance s).1.flatMap Vlq.encodeOne, (moved.advance s).2) := by
  have hquantities : Id.run (((cursor.toLine s.generated.line.toNat).advance s).1.mapM
      writeWords.quantity) = ((cursor.toLine s.generated.line.toNat).advance s).1.map
        Vlq.encodeOne :=
    List.idRun_mapM
  dsimp only
  rw [List.flatMap_def, ← hquantities]
  rfl

theorem encodeFrom_nil (out : String) (cursor : Cursor Int64) : encodeFrom out cursor [] = out :=
  rfl

theorem encodeFrom_cons (out : String) (cursor : Cursor Int64) (s : Segment)
    (rest : List Segment) :
    encodeFrom out cursor (s :: rest) =
      encodeFrom (out ++ String.ofList (cursor.write s).1) (cursor.write s).2 rest :=
  rfl

theorem encode_eq_encodeFrom (segments : List Segment) :
    encode segments = encodeFrom "" {} segments :=
  rfl

end SourceChain.Mappings
