import SourceChain.SourceMap.Compose

/-!
# Drafts of source maps

A draft is a builder without caches. It searches its table for the number of a string, and it keeps
each text with the path it belongs to, so there is nothing in it that could fall out of step.

Everything that can be said of what a builder makes is said of drafts first. A builder goes through
the same steps as the draft that is left of it without its caches (`Builder.performAll_draft`).
-/

namespace SourceChain.SourceMap

/-- A source map in the making, without caches. -/
structure Draft where
  /-- The name of the generated buffer. -/
  file : Option String := none
  /-- What goes in front of every path. -/
  sourceRoot : Option String := none
  /-- The sources mentioned so far. -/
  sources : Array Source := #[]
  /-- The names mentioned so far. -/
  names : Array String := #[]
  /-- The segments added so far. -/
  segments : Array Segment := #[]
deriving DecidableEq, Repr

namespace Draft

open Builder (Call Reply sortSegments)

/-- The number of a path, which is the next free one if no source has the path. -/
def addSource (d : Draft) (path : String) : UInt32 × Draft :=
  match d.sources.findIdx? (·.path == path) with
  | some index => (UInt32.ofNat index, d)
  | none => (UInt32.ofNat d.sources.size, { d with sources := d.sources.push ⟨path, none⟩ })

/-- Embeds a text in the source with the given number. A number that no source has changes
nothing. -/
def setContent (d : Draft) (number : UInt32) (text : String) : Draft :=
  { d with
    sources := d.sources.modify number.toNat fun source ↦ { source with content := some text } }

/-- The number of a name, which is the next free one if the name is new. -/
def addName (d : Draft) (name : String) : UInt32 × Draft :=
  match d.names.findIdx? (· == name) with
  | some index => (UInt32.ofNat index, d)
  | none => (UInt32.ofNat d.names.size, { d with names := d.names.push name })

/-- Adds a segment as it is. -/
def addSegment (d : Draft) (s : Segment) : Draft :=
  { d with segments := d.segments.push s }

/-- Adds a segment that was only generated. -/
def addUnmapped (d : Draft) (generated : Position) : Draft :=
  d.addSegment ⟨generated, none⟩

/-- Adds a segment with an origin. The source is numbered before the name. -/
def addMapping (d : Draft) (generated : Position) (path : String) (position : Position)
    (name : Option String) : Draft :=
  let (source, d) := d.addSource path
  match name with
  | none => d.addSegment ⟨generated, some ⟨source, position, none⟩⟩
  | some name =>
    let (number, d) := d.addName name
    d.addSegment ⟨generated, some ⟨source, position, some number⟩⟩

/-- What the map is assembled from, with the segments in the order they were added. -/
def toParts (d : Draft) : Parts where
  file := d.file
  sourceRoot := d.sourceRoot
  paths := d.sources.toList.map Source.path
  contents := d.sources.toList.map Source.content
  names := d.names.toList
  segments := d.segments.toList

/-- The finished map. -/
def build (d : Draft) : SourceMap :=
  ofTrusted { d.toParts with segments := sortSegments d.segments.toList }

@[simp]
theorem segments_build (d : Draft) : d.build.segments = sortSegments d.segments.toList :=
  rfl

@[simp]
theorem sources_build (d : Draft) : d.build.sources = d.sources := by
  simp [build, toParts, ofTrusted, ofMappings]

@[simp]
theorem names_build (d : Draft) : d.build.names = d.names := by
  simp [build, toParts, ofTrusted, ofMappings]

/-- Carries out a call. -/
def perform (d : Draft) : Call → Reply × Draft
  | .map generated path position name =>
    let d := d.addMapping generated path position name
    (.count d.segments.size, d)
  | .unmapped generated =>
    let d := d.addUnmapped generated
    (.count d.segments.size, d)
  | .source path =>
    let (index, d) := d.addSource path
    (.index index, d)
  | .name name =>
    let (index, d) := d.addName name
    (.index index, d)
  | .content index text => (.nothing, d.setContent index text)
  | .file file => (.nothing, { d with file })
  | .root root => (.nothing, { d with sourceRoot := some root })

/-- Carries out calls in turn: what each gave back, and the draft after the last. -/
def performAll (d : Draft) : List Call → List Reply × Draft
  | [] => ([], d)
  | call :: calls =>
    let (reply, d) := d.perform call
    let (replies, d) := d.performAll calls
    (reply :: replies, d)

/-- Embeds a text, if there is one, in the source with the given path. -/
def embed (d : Draft) (path : String) : Option String → Draft
  | none => d
  | some text =>
    let (number, d) := d.addSource path
    d.setContent number text

/-- Adds what a stage segment becomes. -/
def addStage (incoming stage : SourceMap) (options : ComposeOptions) (d : Draft) (s : Segment) :
    Draft :=
  match s.origin with
  | none => d.addUnmapped s.generated
  | some intermediate =>
    match resolveOrigin? incoming intermediate.position with
    | none => d
    | some origin =>
      match incoming.resolvedSource? origin.source with
      | none => d
      | some path =>
        let name := (origin.name.bind incoming.name?).or (intermediate.name.bind stage.name?)
        let d := d.addMapping s.generated path origin.position name
        if options.sourcesContent then d.embed path (incoming.content? origin.source) else d

end Draft

end SourceChain.SourceMap
