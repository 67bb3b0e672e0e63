import SourceChain.Mappings.Text
import SourceChain.Json.Octets
import SourceChain.Text.Excerpt

/-!
# Source maps

A source map holds the sources and names that its segments point at by index. A source carries its
path and, if it is embedded, its text.

`SourceMap.ofParts` checks everything that the segments promise: lines from one on, indices that
exist, and the order of generated positions. `SourceMap.ofTrusted` leaves the checks to the caller.
-/

namespace SourceChain

/-- A source that segments can point at. -/
structure Source where
  /-- The path, without the source root of the map. -/
  path : String
  /-- The text of the source, if the map embeds it. -/
  content : Option String
deriving DecidableEq, Repr

/-- A map from a generated buffer to its sources. -/
structure SourceMap where
  /-- The name of the generated buffer. -/
  file : Option String
  /-- What goes in front of every path. -/
  sourceRoot : Option String
  /-- The sources, by index. -/
  sources : Array Source
  /-- The identifiers, by index. -/
  names : Array String
  /-- The segments. -/
  mappings : Mappings
deriving DecidableEq, Repr

namespace SourceMap

/-- Why a source map was refused. -/
inductive Error where
  /-- The text is not a JSON document of the right shape. -/
  | json (fault : Json.Fault)
  /-- The document has another version than three. -/
  | version (found : UInt32)
  /-- The segments were refused. -/
  | mappings (cause : Mappings.Error)
  /-- A segment points at a source that the map has not. -/
  | sourceIndex (index : UInt32)
  /-- A segment points at a name that the map has not. -/
  | nameIndex (index : UInt32)
  /-- A segment has a line that no position may have. -/
  | position (cause : Position.Error)
deriving DecidableEq, Repr

/-- The wording of a refusal. -/
def Error.message : Error → String
  | json .truncated => "Invalid source map JSON: the text ends early"
  | json .malformed => "Invalid source map JSON: the text is not JSON"
  | json .mismatched => "Invalid source map JSON: the document has another shape"
  | version found => s!"Invalid source map version: expected 3, got {found}"
  | mappings cause => cause.message
  | sourceIndex index => s!"Invalid source index: {index}"
  | nameIndex index => s!"Invalid name index: {index}"
  | position cause => s!"Invalid position: {cause.message}"

/-! ### Assembly -/

/-- What a source map is assembled from. -/
structure Parts where
  /-- The name of the generated buffer. -/
  file : Option String := none
  /-- What goes in front of every path. -/
  sourceRoot : Option String := none
  /-- The paths of the sources. -/
  paths : List String := []
  /-- The embedded texts, by source. -/
  contents : List (Option String) := []
  /-- The identifiers. -/
  names : List String := []
  /-- The segments. -/
  segments : List Segment := []
deriving DecidableEq, Repr

/-- The sources with the given paths. Contents that are missing are absent, and contents beyond the
last path are dropped. -/
def pairSources : List String → List (Option String) → List Source
  | [], _ => []
  | path :: paths, [] => ⟨path, none⟩ :: pairSources paths []
  | path :: paths, content :: contents => ⟨path, content⟩ :: pairSources paths contents

@[simp] theorem map_path_pairSources (paths : List String) (contents : List (Option String)) :
    (pairSources paths contents).map Source.path = paths := by
  induction paths generalizing contents with
  | nil => rfl
  | cons path paths ih => cases contents <;> simp [pairSources, ih]

@[simp] theorem pairSources_map (sources : List Source) :
    pairSources (sources.map Source.path) (sources.map Source.content) = sources := by
  induction sources with
  | nil => rfl
  | cons source sources ih => simp [pairSources, ih]

/-- Checks what an origin promises, in a map with so many sources and names. -/
def checkOrigin (sources names : Nat) (origin : Origin) : Except Error Unit :=
  if sources ≤ origin.source.toNat then .error (.sourceIndex origin.source)
  else if origin.position.line = 0 then .error (.position .zeroLine)
  else
    match origin.name with
    | none => .ok ()
    | some name => if names ≤ name.toNat then .error (.nameIndex name) else .ok ()

/-- Checks what a segment promises, in a map with so many sources and names. -/
def checkSegment (sources names : Nat) (s : Segment) : Except Error Unit :=
  if s.generated.line = 0 then .error (.position .zeroLine)
  else
    match s.origin with
    | none => .ok ()
    | some origin => checkOrigin sources names origin

/-- Checks segments in turn, up to the first that breaks its promise. -/
def checkSegments (sources names : Nat) : List Segment → Except Error Unit
  | [] => .ok ()
  | s :: rest =>
    match checkSegment sources names s with
    | .ok () => checkSegments sources names rest
    | .error e => .error e

theorem checkSegments_eq_ok_iff {sources names : Nat} {segments : List Segment} :
    checkSegments sources names segments = .ok () ↔
      ∀ s ∈ segments, checkSegment sources names s = .ok () := by
  induction segments with
  | nil => simp [checkSegments]
  | cons s rest ih =>
    rw [checkSegments]
    split
    next h => simp [h, ih]
    next h => simp [h]

/-- The map of parts whose segments have been checked, and put into mappings. -/
def ofMappings (parts : Parts) (mappings : Mappings) : SourceMap where
  file := parts.file
  sourceRoot := parts.sourceRoot
  sources := (pairSources parts.paths parts.contents).toArray
  names := parts.names.toArray
  mappings := mappings

/-- Assembles a map. Every segment is checked on its own before the order of the segments is. -/
def ofParts (parts : Parts) : Except Error SourceMap :=
  match checkSegments parts.paths.length parts.names.length parts.segments with
  | .error e => .error e
  | .ok () =>
    match Mappings.ofSegments parts.segments with
    | .error e => .error (.mappings e)
    | .ok mappings => .ok (ofMappings parts mappings)

/-- Assembles a map from parts whose segments are known to be in order. -/
def ofTrusted (parts : Parts) : SourceMap :=
  ofMappings parts (Mappings.ofSorted parts.segments)

/-! ### Views -/

/-- The segments in order. -/
def segments (m : SourceMap) : List Segment :=
  m.mappings.toList

@[simp] theorem segments_ofMappings (parts : Parts) (mappings : Mappings) :
    (ofMappings parts mappings).segments = mappings.toList :=
  rfl

@[simp] theorem segments_ofTrusted (parts : Parts) : (ofTrusted parts).segments = parts.segments :=
  rfl

/-- The parts that the map could be assembled from. -/
def toParts (m : SourceMap) : Parts where
  file := m.file
  sourceRoot := m.sourceRoot
  paths := m.sources.toList.map Source.path
  contents := m.sources.toList.map Source.content
  names := m.names.toList
  segments := m.segments

/-- Taking a map apart loses nothing but the line table. -/
theorem ofMappings_toParts (m : SourceMap) : ofMappings m.toParts m.mappings = m := by
  simp [ofMappings, toParts]

/-- Whether some source is embedded. -/
def hasContents (m : SourceMap) : Bool :=
  m.sources.any (·.content.isSome)

/-- A path with the source root in front. Slashes at the end of the root are dropped, and one is put
between; an empty root is no root. -/
def resolve (m : SourceMap) (path : String) : String :=
  match m.sourceRoot with
  | none => path
  | some root =>
    if root.isEmpty then path
    else String.ofList (root.toList.reverse.dropWhile (· = '/')).reverse ++ "/" ++ path

/-- The path of a source with the source root in front. -/
def resolvedSource? (m : SourceMap) (index : UInt32) : Option String :=
  m.sources[index.toNat]?.map fun source ↦ m.resolve source.path

/-- The embedded text of a source. -/
def content? (m : SourceMap) (index : UInt32) : Option String :=
  m.sources[index.toNat]?.bind Source.content

/-- A name by its index. -/
def name? (m : SourceMap) (index : UInt32) : Option String :=
  m.names[index.toNat]?

/-! ### Lookup -/

/-- The segment that covers a generated position. -/
def lookup (m : SourceMap) (generated : Position) : Option Segment :=
  m.mappings.find? generated

/-- Where a generated position came from, with the indices resolved. -/
structure SourceLocation where
  /-- The path of the source, with the source root in front. -/
  source : String
  /-- The position in the source. -/
  position : Position
  /-- The identifier there. -/
  name : Option String
  /-- The embedded text of the source. -/
  content : Option String
deriving DecidableEq, Repr

/-- The line of the source with up to `width` lines on each side, if the source is embedded. -/
def SourceLocation.excerpt? (location : SourceLocation) (width : UInt64) :
    Option (Option Text.Excerpt) :=
  location.content.map fun text ↦ Text.excerpt? text location.position.line.toUInt64 width

/-- An origin with its indices resolved. -/
def describe? (m : SourceMap) (origin : Origin) : Option SourceLocation :=
  m.resolvedSource? origin.source |>.map fun source ↦
    ⟨source, origin.position, origin.name.bind m.name?, m.content? origin.source⟩

/-- Where a generated position came from: nowhere, if no segment covers it or the one that does was
only generated. -/
def sourceLocation? (m : SourceMap) (generated : Position) : Option SourceLocation :=
  match m.lookup generated with
  | none => none
  | some s =>
    match s.origin with
    | none => none
    | some origin => m.describe? origin

/-- A segment by what it means: its generated position and, if it is mapped, the path of its source
and the position there. -/
def resolvedSegments (m : SourceMap) : List (Position × Option (String × Position)) :=
  m.segments.map fun s ↦
    (s.generated, s.origin.bind fun origin ↦
      (m.resolvedSource? origin.source).map fun source ↦ (source, origin.position))

/-! ### Derived maps -/

/-- The map with its only source renamed, and no source root. A map with no source or with several
stays as it is, since it does not say which one is meant. -/
def relabel (m : SourceMap) (path : String) : SourceMap :=
  match m.sources.toList with
  | [only] => { m with sources := #[{ only with path }], sourceRoot := none }
  | _ => m

@[simp] theorem segments_relabel (m : SourceMap) (path : String) :
    (m.relabel path).segments = m.segments := by
  unfold relabel
  split <;> rfl

/-- The map with no source embedded. -/
def withoutContents (m : SourceMap) : SourceMap :=
  { m with sources := m.sources.map fun source ↦ { source with content := none } }

@[simp] theorem segments_withoutContents (m : SourceMap) :
    m.withoutContents.segments = m.segments :=
  rfl

@[simp] theorem hasContents_withoutContents (m : SourceMap) :
    m.withoutContents.hasContents = false := by
  simp [withoutContents, hasContents]

end SourceMap

end SourceChain
