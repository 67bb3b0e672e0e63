import SourceChain.SourceMap.Builder

/-!
# Composing source maps

An incoming map leads from an intermediate buffer to the sources, and a stage map from the generated
buffer to the intermediate one. Their composition leads from the generated buffer straight to the
sources; the intermediate buffer is gone.

Each stage segment is resolved by itself. The incoming segment that covers its intermediate position
gives the source and line, and the distance into that segment is carried over to the column. A stage
segment that cannot be resolved is dropped, so that a lookup falls back to the segment before it.
-/

namespace SourceChain.SourceMap

/-- What a composition carries over. -/
structure ComposeOptions where
  /-- Whether sources stay embedded. -/
  sourcesContent : Bool := true
deriving DecidableEq, Repr

/-- The origin in the incoming map of an intermediate position. There is none if no mapped segment
covers the position, or if the column would need more than 32 bits. -/
def resolveOrigin? (incoming : SourceMap) (intermediate : Position) : Option Origin :=
  match incoming.lookup intermediate with
  | none => none
  | some covering =>
    match covering.origin with
    | none => none
    | some origin =>
      let distance := intermediate.column - covering.generated.column
      if origin.position.column.toNat + distance.toNat < UInt32.size then
        some { origin with position := ⟨origin.position.line, origin.position.column + distance⟩ }
      else none

/-- Embeds a text, if there is one, in the source with the given path. -/
def Builder.embed (b : Builder) (path : String) : Option String → Builder
  | none => b
  | some text =>
    let (index, b) := b.addSource path
    b.setContent index text

/-- Adds what a stage segment becomes. The name is the one of the incoming map, or else the one that
the stage gives. -/
def Builder.addStage (incoming stage : SourceMap) (options : ComposeOptions) (b : Builder)
    (s : Segment) : Builder :=
  match s.origin with
  | none => b.addUnmapped s.generated
  | some intermediate =>
    match resolveOrigin? incoming intermediate.position with
    | none => b
    | some origin =>
      match incoming.resolvedSource? origin.source with
      | none => b
      | some path =>
        let name := (origin.name.bind incoming.name?).or (intermediate.name.bind stage.name?)
        let b := b.addMapping s.generated path origin.position name
        if options.sourcesContent then b.embed path (incoming.content? origin.source) else b

/-- The composition of a stage map with the map of the buffer that it points into. -/
def composeWith (options : ComposeOptions) (incoming stage : SourceMap) : SourceMap :=
  (stage.segments.foldl (Builder.addStage incoming stage options) { file := stage.file }).build

/-- The composition that keeps sources embedded. -/
def compose (incoming stage : SourceMap) : SourceMap :=
  composeWith {} incoming stage

/-- The composition with a map that may be absent. Without one the intermediate buffer is itself the
source, so the stage map stays, with its only source named after the given file. -/
def composeOptional (options : ComposeOptions) (incoming : Option SourceMap) (stage : SourceMap)
    (path : String) : SourceMap :=
  match incoming with
  | some incoming => composeWith options incoming stage
  | none =>
    let relabelled := stage.relabel path
    if options.sourcesContent then relabelled else relabelled.withoutContents

end SourceChain.SourceMap
