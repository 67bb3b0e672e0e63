import SourceChain.Segment
import SourceChain.Vlq

/-!
# Decoded mappings

The segments of a map in one array, ordered by generated position, together with a table that says
how many segments lie on the lines up to each line. A line is then a slice of the array, and the
segment that covers a position is found on its own line.

`Mappings.ofSorted` builds the table and takes the order on trust; `Mappings.ofSegments` checks it.
-/

namespace SourceChain

/-- Segments with a table of where each line ends. -/
structure Mappings where
  /-- The segments, ordered by generated position. -/
  segments : Array Segment
  /-- At place `n`, how many segments lie on lines up to `n`. -/
  lineOffsets : Array Nat
deriving DecidableEq, Repr

namespace Mappings

/-- The running sums of the mappings text. -/
inductive Field where
  | generatedColumn
  | sourceIndex
  | sourceLine
  | sourceColumn
  | nameIndex
deriving DecidableEq, Repr

/-- What a message calls a running sum. -/
def Field.label : Field → String
  | generatedColumn => "generated column"
  | sourceIndex => "source index"
  | sourceLine => "original line"
  | sourceColumn => "original column"
  | nameIndex => "name index"

/-- Why mappings were refused. -/
inductive Error where
  /-- A piece of the text is not a run of quantities. -/
  | quantity (cause : Vlq.Error)
  /-- A piece has a number of quantities that means nothing. -/
  | fieldCount (piece : String) (fields : Nat)
  /-- A running sum does not fit 32 bits without a sign. -/
  | outOfRange (field : Field) (value : Int64) (line : UInt32)
  /-- A line is too large for a position. -/
  | position (cause : Position.Error)
  /-- A segment lies before the one that it follows. -/
  | unordered (previous current : Position)
deriving DecidableEq, Repr

/-- The wording of a refusal. -/
def Error.message : Error → String
  | quantity cause => cause.message
  | fieldCount piece fields =>
    s!"Invalid segment {Text.quoted piece}: expected 1, 4 or 5 fields, got {fields}"
  | outOfRange field value line =>
    s!"Negative {field.label} ({value}) at generated line {line}"
  | position cause => s!"Invalid position: {cause.message}"
  | unordered previous current =>
    s!"Segments are not ordered by generated position: {current} follows {previous}"

/-! ### The line table -/

/-- The entries of the line table from line `line` on, for `count` lines: `passed` segments lie on
the lines before, and `rest` are the others. -/
def offsetsFrom (offsets : Array Nat) (passed : Nat) (rest : List Segment) (line : Nat) :
    Nat → Array Nat
  | 0 => offsets
  | count + 1 =>
    let here := rest.takeWhile (·.generated.line.toNat ≤ line)
    let later := rest.dropWhile (·.generated.line.toNat ≤ line)
    let passed := passed + here.length
    offsetsFrom (offsets.push passed) passed later (line + 1) count

theorem size_offsetsFrom (offsets : Array Nat) (passed : Nat) (rest : List Segment)
    (line count : Nat) :
    (offsetsFrom offsets passed rest line count).size = offsets.size + count := by
  induction count generalizing offsets passed rest line with
  | zero => rfl
  | succ count ih =>
    rw [offsetsFrom, ih, Array.size_push]
    omega

/-- The generated line of the last segment, or zero. -/
def lastLineOf (segments : List Segment) : UInt32 :=
  match segments.getLast? with
  | some s => s.generated.line
  | none => 0

/-- Mappings of segments that are in order already. -/
def ofSorted (segments : List Segment) : Mappings where
  segments := segments.toArray
  lineOffsets := offsetsFrom #[] 0 segments 0 ((lastLineOf segments).toNat + 1)

/-- The line table has a place for line zero and one for each line up to the last. -/
@[simp] theorem size_lineOffsets_ofSorted (segments : List Segment) :
    (ofSorted segments).lineOffsets.size = (lastLineOf segments).toNat + 1 := by
  simp [ofSorted, size_offsetsFrom]

/-- The first two neighbours of which the second lies before the first. -/
def firstDescent? : List Segment → Option (Segment × Segment)
  | a :: b :: rest =>
    if b.generated < a.generated then some (a, b) else firstDescent? (b :: rest)
  | _ => none

/-- No neighbours descend exactly if the segments are sorted as a whole. -/
theorem firstDescent?_eq_none_iff {segments : List Segment} :
    firstDescent? segments = none ↔
      segments.Pairwise fun a b ↦ a.generated ≤ b.generated := by
  fun_induction firstDescent? segments with
  | case1 a b rest h =>
    have hle : ¬ a.generated ≤ b.generated := fun hle ↦ Position.not_lt.2 hle h
    simp [hle]
  | case2 a b rest h ih =>
    have hle : a.generated ≤ b.generated := Position.not_lt.1 h
    rw [ih, List.pairwise_cons (a := a)]
    refine ⟨fun hp ↦ ⟨fun x hx ↦ ?_, hp⟩, And.right⟩
    rcases List.mem_cons.1 hx with rfl | hx
    · exact hle
    · exact Position.le_trans hle (List.rel_of_pairwise_cons hp hx)
  | case3 segments h =>
    rcases segments with _ | ⟨a, _ | ⟨b, rest⟩⟩
    · simp
    · simp
    · exact absurd rfl (h a b rest)

/-- Mappings of segments that must not go backwards in generated position. -/
def ofSegments (segments : List Segment) : Except Error Mappings :=
  match firstDescent? segments with
  | some (a, b) => .error (.unordered a.generated b.generated)
  | none => .ok (ofSorted segments)

/-- Sorted segments are taken as they are, and no others. -/
theorem ofSegments_eq_ok_iff {segments : List Segment} {m : Mappings} :
    ofSegments segments = .ok m ↔
      (segments.Pairwise fun a b ↦ a.generated ≤ b.generated) ∧ m = ofSorted segments := by
  rw [← firstDescent?_eq_none_iff]
  unfold ofSegments
  split
  next h => simp [h]
  next h => simp [h, eq_comm]

/-! ### Views -/

/-- The segments in order. -/
def toList (m : Mappings) : List Segment :=
  m.segments.toList

@[simp] theorem toList_ofSorted (segments : List Segment) :
    (ofSorted segments).toList = segments :=
  rfl

/-- How many segments there are. -/
def size (m : Mappings) : Nat :=
  m.segments.size

/-- Whether there are no segments. -/
def isEmpty (m : Mappings) : Bool :=
  m.segments.isEmpty

/-- The highest generated line that has a segment, or zero. -/
def lastLine (m : Mappings) : UInt32 :=
  match m.segments.back? with
  | some s => s.generated.line
  | none => 0

@[simp] theorem lastLine_ofSorted (segments : List Segment) :
    (ofSorted segments).lastLine = lastLineOf segments := by
  simp [lastLine, lastLineOf, ofSorted]

/-- The segments on a generated line, counted from one. -/
def line (m : Mappings) (n : UInt32) : List Segment :=
  if h : 0 < n.toNat ∧ n.toNat < m.lineOffsets.size then
    (m.segments.extract m.lineOffsets[n.toNat - 1] m.lineOffsets[n.toNat]).toList
  else []

/-- The segment that covers a generated position: the last one on its line whose column is not
past it. -/
def find? (m : Mappings) (p : Position) : Option Segment :=
  ((m.line p.line).takeWhile (·.generated.column ≤ p.column)).getLast?

end Mappings

end SourceChain
