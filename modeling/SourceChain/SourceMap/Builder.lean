import Std.Data.HashMap
import SourceChain.SourceMap.Basic

/-!
# Building source maps

A builder collects segments in any order and numbers sources and names by their first mention.
Building the map sorts the segments by generated position, stably, so that segments at one position
stay in the order in which they were added.

The number of a string is looked up in a cache beside the table that the string stands in, and the
texts of the sources stand in a table of their own. Every call keeps the caches in step with the
tables and the tables in step with each other; nothing checks it.

A builder takes positions as they are, so a map built from a position on line zero breaks what
`SourceMap.ofParts` checks.
-/

namespace SourceChain.SourceMap

/-- A source map in the making. -/
structure Builder where
  /-- The name of the generated buffer. -/
  file : Option String := none
  /-- What goes in front of every path. -/
  sourceRoot : Option String := none
  /-- The paths mentioned so far. -/
  paths : Array String := #[]
  /-- The embedded texts, by source. -/
  contents : Array (Option String) := #[]
  /-- The numbers of the paths. -/
  pathNumbers : Std.HashMap String UInt32 := {}
  /-- The names mentioned so far. -/
  names : Array String := #[]
  /-- The numbers of the names. -/
  nameNumbers : Std.HashMap String UInt32 := {}
  /-- The segments added so far. -/
  segments : Array Segment := #[]
deriving Repr

namespace Builder

/-- The number of a path, which is the next free one if the path is new. -/
def addSource (b : Builder) (path : String) : UInt32 × Builder :=
  match b.pathNumbers[path]? with
  | some number => (number, b)
  | none =>
    let number := UInt32.ofNat b.paths.size
    (number,
      { b with
        paths := b.paths.push path
        contents := b.contents.push none
        pathNumbers := b.pathNumbers.insert path number })

/-- Embeds a text in the source with the given number. A number that no source has changes
nothing. -/
def setContent (b : Builder) (number : UInt32) (text : String) : Builder :=
  { b with contents := b.contents.setIfInBounds number.toNat (some text) }

/-- The number of a name, which is the next free one if the name is new. -/
def addName (b : Builder) (name : String) : UInt32 × Builder :=
  match b.nameNumbers[name]? with
  | some number => (number, b)
  | none =>
    let number := UInt32.ofNat b.names.size
    (number,
      { b with
        names := b.names.push name
        nameNumbers := b.nameNumbers.insert name number })

/-- Adds a segment as it is. -/
def addSegment (b : Builder) (s : Segment) : Builder :=
  { b with segments := b.segments.push s }

/-- Adds a segment that was only generated. -/
def addUnmapped (b : Builder) (generated : Position) : Builder :=
  b.addSegment ⟨generated, none⟩

/-- Adds a segment with an origin. The source is numbered before the name. -/
def addMapping (b : Builder) (generated : Position) (path : String) (position : Position)
    (name : Option String) : Builder :=
  let (source, b) := b.addSource path
  match name with
  | none => b.addSegment ⟨generated, some ⟨source, position, none⟩⟩
  | some name =>
    let (number, b) := b.addName name
    b.addSegment ⟨generated, some ⟨source, position, some number⟩⟩

/-- What the map is assembled from, with the segments in the order they were added. -/
def toParts (b : Builder) : Parts where
  file := b.file
  sourceRoot := b.sourceRoot
  paths := b.paths.toList
  contents := b.contents.toList
  names := b.names.toList
  segments := b.segments.toList

/-- Segments sorted stably by generated position. -/
def sortSegments (segments : List Segment) : List Segment :=
  segments.mergeSort fun a b ↦ a.generated ≤ b.generated

theorem sortSegments_perm (segments : List Segment) : (sortSegments segments).Perm segments :=
  List.mergeSort_perm _ _

theorem sortSegments_sorted (segments : List Segment) :
    (sortSegments segments).Pairwise fun a b ↦ a.generated ≤ b.generated :=
  (List.pairwise_mergeSort (Position.decide_le_trans Segment.generated)
    (Position.decide_le_total Segment.generated) segments).imp of_decide_eq_true

/-- The finished map. -/
def build (b : Builder) : SourceMap :=
  ofTrusted { b.toParts with segments := sortSegments b.segments.toList }

@[simp] theorem segments_build (b : Builder) :
    b.build.segments = sortSegments b.segments.toList :=
  rfl

/-! ### Histories -/

/-- A call to a builder. -/
inductive Call where
  | map (generated : Position) (path : String) (position : Position) (name : Option String)
  | unmapped (generated : Position)
  | source (path : String)
  | name (name : String)
  | content (index : UInt32) (text : String)
  | file (file : Option String)
  | root (root : String)
deriving DecidableEq, Repr

/-- What a call gives back. -/
inductive Reply where
  /-- How many segments there are now. -/
  | count (segments : Nat)
  /-- The index of the source or name. -/
  | index (index : UInt32)
  | nothing
deriving DecidableEq, Repr

/-- Carries out a call. -/
def perform (b : Builder) : Call → Reply × Builder
  | .map generated path position name =>
    let b := b.addMapping generated path position name
    (.count b.segments.size, b)
  | .unmapped generated =>
    let b := b.addUnmapped generated
    (.count b.segments.size, b)
  | .source path =>
    let (index, b) := b.addSource path
    (.index index, b)
  | .name name =>
    let (index, b) := b.addName name
    (.index index, b)
  | .content index text => (.nothing, b.setContent index text)
  | .file file => (.nothing, { b with file })
  | .root root => (.nothing, { b with sourceRoot := some root })

/-- Carries out calls in turn: what each gave back, and the builder after the last. -/
def performAll (b : Builder) : List Call → List Reply × Builder
  | [] => ([], b)
  | call :: calls =>
    let (reply, b) := b.perform call
    let (replies, b) := b.performAll calls
    (reply :: replies, b)

end Builder

end SourceChain.SourceMap
