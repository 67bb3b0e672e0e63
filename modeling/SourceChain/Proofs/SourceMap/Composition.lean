import Mathlib.Data.List.Perm.Subperm
import SourceChain.Proofs.SourceMap.Links
import SourceChain.Proofs.SourceMap.Mirror
import SourceChain.Proofs.SourceMap.WellFormed

/-!
# What a composition is

`composedLinks` reads a composition off its two maps, without tables, numbers or sorting: each stage segment
is carried through the incoming map by a plain scan (`carry?`), and those that cannot be carried are
left out. `composeWith` makes exactly the map of these links.

The stage map is in order, so the sort at the end moves nothing. The incoming map has at most
`2 ^ 32` sources that a segment can point at, so the numbers of paths always fit 32 bits. Names come
from two maps and could be twice as many; only what is said about looking names up by their numbers
depends on that.
-/

namespace SourceChain.SourceMap

open Mappings (covering? covering?_eq_some Sorted)

/-! ### Carrying a position through a map -/

/-- The origin that a position has through the segment that covers it: the distance into that
segment is carried over to the column. There is none if no mapped segment covers the position, or if
the column needs more than 32 bits. -/
def carry? (segments : List Segment) (p : Position) : Option Origin :=
  match covering? segments p with
  | none => none
  | some covering =>
    match covering.origin with
    | none => none
    | some origin =>
      let column := origin.position.column.toNat + (p.column.toNat - covering.generated.column.toNat)
      if column < UInt32.size then
        some { origin with position := ⟨origin.position.line, UInt32.ofNat column⟩ }
      else none

/-- Whether a stage segment has a place in the composition: it was only generated, or its
intermediate position is carried through the incoming map. -/
def survives (incoming : SourceMap) (s : Segment) : Bool :=
  s.origin.all fun via ↦ (carry? incoming.segments via.position).isSome

/-- What a stage segment becomes. The name is the one of the incoming map, or else the one that the
stage gives. -/
def link? (options : ComposeOptions) (incoming stage : SourceMap) (s : Segment) : Option Link :=
  match s.origin with
  | none => some ⟨s.generated, none⟩
  | some via =>
    (carry? incoming.segments via.position).bind fun origin ↦
      (incoming.describe? origin).map fun location ↦
        ⟨s.generated, some { location with
          name := location.name.or (via.name.bind stage.name?)
          content := if options.sourcesContent then location.content else none }⟩

/-- What the segments of a stage map become, in order. -/
def composedLinks (options : ComposeOptions) (incoming stage : SourceMap) : List Link :=
  stage.segments.filterMap (link? options incoming stage)

variable {options : ComposeOptions} {incoming stage : SourceMap} {s : Segment} {l : Link}

/-- The column sum of a carried position does not wrap. -/
theorem resolveOrigin?_eq_carry? (h : incoming.WellFormed) (p : Position) :
    resolveOrigin? incoming p = carry? incoming.segments p := by
  rw [resolveOrigin?, carry?, h.lookup_eq]
  rcases hcovering : covering? incoming.segments p with - | covering
  · rfl
  · rcases horigin : covering.origin with - | origin
    · simp only [horigin]
    · obtain ⟨-, -, hle⟩ := covering?_eq_some hcovering
      have hdistance : (p.column - covering.generated.column).toNat =
          p.column.toNat - covering.generated.column.toNat := UInt32.toNat_sub_of_le _ _ hle
      have hcolumn : origin.position.column + (p.column - covering.generated.column) =
          UInt32.ofNat (origin.position.column.toNat +
            (p.column.toNat - covering.generated.column.toNat)) := by
        rw [← hdistance, UInt32.ofNat_add, UInt32.ofNat_toNat, UInt32.ofNat_toNat]
      simp only [horigin, hdistance, hcolumn]

/-- A carried origin is that of a segment, but for its column. -/
theorem exists_of_carry?_eq_some {segments : List Segment} {p : Position} {origin : Origin}
    (h : carry? segments p = some origin) :
    ∃ covering ∈ segments, ∃ start, covering.origin = some start ∧
      origin.source = start.source ∧ origin.position.line = start.position.line := by
  rw [carry?] at h
  split at h
  next => cases h
  next covering hcovering =>
    split at h
    next => cases h
    next start hstart =>
      simp only [Option.ite_none_right_eq_some, Option.some.injEq] at h
      obtain ⟨-, rfl⟩ := h
      exact ⟨covering, (covering?_eq_some hcovering).1, start, hstart, rfl, rfl⟩

/-- A carried origin has a source of the map. -/
theorem exists_source_of_carry? (h : incoming.WellFormed) {p : Position} {origin : Origin}
    (hcarry : carry? incoming.segments p = some origin) :
    ∃ source, incoming.sources[origin.source.toNat]? = some source := by
  obtain ⟨covering, hmem, start, hstart, hsource, -⟩ := exists_of_carry?_eq_some hcarry
  rw [hsource]
  exact ⟨_, Array.getElem?_eq_getElem ((h.valid covering hmem).origin start hstart).source_lt⟩

/-- Exactly the stage segments that survive become links. -/
theorem isSome_link? (options : ComposeOptions) (h : incoming.WellFormed) (stage : SourceMap)
    (s : Segment) :
    (link? options incoming stage s).isSome = survives incoming s := by
  rw [link?, survives]
  rcases s.origin with - | via
  · rfl
  · rcases hcarry : carry? incoming.segments via.position with - | origin
    · simp [hcarry]
    · obtain ⟨source, hsource⟩ := exists_source_of_carry? h hcarry
      simp [hcarry, describe?, resolvedSource?, hsource]

/-- A link stands where its stage segment does. -/
theorem generated_of_link? (h : link? options incoming stage s = some l) :
    l.generated = s.generated := by
  rw [link?] at h
  split at h
  next => exact (Option.some.inj h) ▸ rfl
  next via hvia =>
    obtain ⟨origin, -, hl⟩ := Option.bind_eq_some_iff.1 h
    obtain ⟨location, -, rfl⟩ := Option.map_eq_some_iff.1 hl
    rfl

/-- What a mapped link leads to is a described origin of the incoming map, but for its name and, if
contents are not wanted, its content. -/
theorem exists_describe?_of_link? {location : SourceLocation}
    (h : link? options incoming stage s = some l) (hlocation : l.location = some location) :
    ∃ via origin described, s.origin = some via ∧
      carry? incoming.segments via.position = some origin ∧
      incoming.describe? origin = some described ∧
      location = { described with
        name := described.name.or (via.name.bind stage.name?)
        content := if options.sourcesContent then described.content else none } := by
  rw [link?] at h
  split at h
  next =>
    obtain rfl := Option.some.inj h
    cases hlocation
  next via hvia =>
    obtain ⟨origin, hcarry, hbind⟩ := Option.bind_eq_some_iff.1 h
    obtain ⟨described, hdescribe, rfl⟩ := Option.map_eq_some_iff.1 hbind
    exact ⟨via, origin, described, hvia, hcarry, hdescribe, (Option.some.inj hlocation).symm⟩

theorem composedLinks_sorted (h : stage.WellFormed) :
    (composedLinks options incoming stage).Pairwise fun a b ↦ a.generated ≤ b.generated := by
  refine h.sorted.filterMap _ fun a b hab k hk l hl ↦ ?_
  rw [generated_of_link? hk, generated_of_link? hl]
  exact hab

/-! ### The steps of a draft -/

/-- A stage segment that becomes a link is added as that link, and any other leaves no trace. -/
theorem addStage_eq (h : incoming.WellFormed) (b : Draft) (s : Segment) :
    b.addStage incoming stage options s =
      match link? options incoming stage s with
      | none => b
      | some l => b.addLink l := by
  rw [Draft.addStage, link?]
  rcases s.origin with - | via
  · rfl
  · dsimp only
    rw [resolveOrigin?_eq_carry? h]
    rcases carry? incoming.segments via.position with - | origin
    · rfl
    · rcases hsource : incoming.resolvedSource? origin.source with - | path
      · simp [describe?, hsource]
      · cases options.sourcesContent <;> simp [describe?, hsource, Draft.addLink, Draft.embed]

/-- There are no more values that a number of 32 bits leads to than there are such numbers. -/
theorem length_eraseDups_le_of_numbered {α : Type} [DecidableEq α] {values : List α}
    {f : UInt32 → Option α} (h : ∀ a ∈ values, ∃ index, f index = some a) :
    values.eraseDups.length ≤ UInt32.size := by
  set reached := (List.range UInt32.size).filterMap fun index ↦ f (UInt32.ofNat index)
  have hsubset : values.eraseDups ⊆ reached := by
    intro a ha
    obtain ⟨index, hindex⟩ := h a (List.mem_eraseDups.1 ha)
    refine List.mem_filterMap.2 ⟨index.toNat, List.mem_range.2 index.toNat_lt_size, ?_⟩
    rw [UInt32.ofNat_toNat, hindex]
  calc values.eraseDups.length
      ≤ reached.length := (List.subperm_of_subset (nodup_eraseDups _) hsubset).length_le
    _ ≤ (List.range UInt32.size).length := List.length_filterMap_le _ _
    _ = UInt32.size := List.length_range

/-- The paths of links are those of sources that a 32-bit index reaches. -/
theorem length_eraseDups_paths_composedLinks_le (options : ComposeOptions)
    (incoming stage : SourceMap) :
    (Link.paths (composedLinks options incoming stage)).eraseDups.length ≤ UInt32.size := by
  refine length_eraseDups_le_of_numbered (f := incoming.resolvedSource?) fun path hpath ↦ ?_
  obtain ⟨l, hl, hmention⟩ := List.mem_filterMap.1 hpath
  obtain ⟨location, hlocation, rfl⟩ := Option.map_eq_some_iff.1 hmention
  obtain ⟨s, -, hs⟩ := List.mem_filterMap.1 hl
  obtain ⟨via, origin, described, -, -, hdescribe, rfl⟩ := exists_describe?_of_link? hs hlocation
  obtain ⟨path, hresolved, rfl⟩ := Option.map_eq_some_iff.1 hdescribe
  exact ⟨origin.source, hresolved⟩

/-- A composition is the map of its links. -/
theorem composeWith_eq_ofLinks (hincoming : incoming.WellFormed) (hstage : stage.WellFormed) :
    composeWith options incoming stage = ofLinks stage.file (composedLinks options incoming stage) := by
  have hfold : stage.segments.foldl (Draft.addStage incoming stage options)
      { file := stage.file } =
        (composedLinks options incoming stage).foldl Draft.addLink { file := stage.file } := by
    rw [composedLinks, List.foldl_filterMap]
    -- a stage segment without a link leaves no trace, so folding over the links is the same
    refine List.foldl_ext _ _ _ fun b s _ ↦ ?_
    rw [addStage_eq hincoming]
    cases link? options incoming stage s <;> rfl
  rw [composeWith_eq_draft, hfold, Draft.foldl_addLink (length_eraseDups_paths_composedLinks_le _ _ _),
    build_ofLinks (composedLinks_sorted hstage)]

/-- Every name of a link comes from one of the two maps. -/
theorem mem_names_or_of_mem_composedLinks {name : String}
    (h : name ∈ Link.names (composedLinks options incoming stage)) :
    name ∈ incoming.names ∨ name ∈ stage.names := by
  obtain ⟨l, hl, hmention⟩ := List.mem_filterMap.1 h
  obtain ⟨location, hlocation, hname⟩ := Option.bind_eq_some_iff.1 hmention
  obtain ⟨s, -, hs⟩ := List.mem_filterMap.1 hl
  obtain ⟨via, origin, described, -, -, hdescribe, rfl⟩ := exists_describe?_of_link? hs hlocation
  obtain ⟨path, -, rfl⟩ := Option.map_eq_some_iff.1 hdescribe
  rw [Option.or_eq_some_iff] at hname
  rcases hname with hown | ⟨-, hstage⟩
  · obtain ⟨index, -, hget⟩ := Option.bind_eq_some_iff.1 hown
    exact .inl (Array.mem_of_getElem? hget)
  · obtain ⟨index, -, hget⟩ := Option.bind_eq_some_iff.1 hstage
    exact .inr (Array.mem_of_getElem? hget)

/-- 32 bits number all names of a composition if the two maps have at most `2 ^ 32` names
together. -/
theorem size_names_composeWith_le (options : ComposeOptions) (hincoming : incoming.WellFormed)
    (hstage : stage.WellFormed) :
    (composeWith options incoming stage).names.size ≤ incoming.names.size + stage.names.size := by
  have hsubset : (Link.names (composedLinks options incoming stage)).eraseDups ⊆
      incoming.names.toList ++ stage.names.toList := by
    intro name hname
    rw [List.mem_append, Array.mem_toList_iff, Array.mem_toList_iff]
    exact mem_names_or_of_mem_composedLinks (List.mem_eraseDups.1 hname)
  have hlength := (List.subperm_of_subset (nodup_eraseDups _) hsubset).length_le
  rw [composeWith_eq_ofLinks hincoming hstage]
  simpa [ofLinks, ofTrusted, ofMappings] using hlength

/-! ### The composition as a whole -/

/-- A composition is the map of its links, which are the stage segments that survive. Its segments
lead to the paths and positions of the links, and to their names as long as 32 bits number all of
them. -/
theorem composeWith_determined_by_links (options : ComposeOptions)
    (hincoming : incoming.WellFormed) (hstage : stage.WellFormed) :
    composeWith options incoming stage = ofLinks stage.file (composedLinks options incoming stage) ∧
      (∀ s ∈ stage.segments, (link? options incoming stage s).isSome = survives incoming s) ∧
      (composeWith options incoming stage).resolvedSegments =
        (composedLinks options incoming stage).map (fun l ↦
          (l.generated, l.location.map fun location ↦ (location.source, location.position))) ∧
      ((composeWith options incoming stage).names.size ≤ UInt32.size →
        (composeWith options incoming stage).segments.map (fun s ↦
            s.origin.bind fun origin ↦
              origin.name.bind (composeWith options incoming stage).name?) =
          (composedLinks options incoming stage).map fun l ↦ l.location.bind (·.name)) := by
  rw [composeWith_eq_ofLinks hincoming hstage]
  refine ⟨rfl, fun s _ ↦ isSome_link? options hincoming stage s, ?_, map_name?_segments_ofLinks⟩
  exact resolvedSegments_ofLinks (length_eraseDups_paths_composedLinks_le _ _ _)

/-- Two sources, of which one is embedded, and generated text behind them. -/
def sampleIncoming : SourceMap :=
  ofTrusted {
    file := some "mid.js"
    sourceRoot := some "src/"
    paths := ["a.coffee", "b.coffee"]
    contents := [some "x = 1"]
    names := ["x"]
    segments := [⟨⟨1, 0⟩, some ⟨0, ⟨1, 0⟩, some 0⟩⟩, ⟨⟨1, 4⟩, some ⟨1, ⟨3, 2⟩, none⟩⟩,
      ⟨⟨2, 0⟩, none⟩] }

/-- A stage over `sampleIncoming` with a segment that leads into generated text. -/
def sampleStage : SourceMap :=
  ofTrusted {
    file := some "out.js"
    paths := ["mid.js"]
    names := ["y"]
    segments := [⟨⟨1, 0⟩, none⟩, ⟨⟨1, 3⟩, some ⟨0, ⟨1, 6⟩, some 0⟩⟩,
      ⟨⟨1, 5⟩, some ⟨0, ⟨2, 1⟩, none⟩⟩, ⟨⟨2, 0⟩, some ⟨0, ⟨1, 1⟩, some 0⟩⟩] }

theorem composeWith_sample : sampleIncoming.WellFormed ∧ sampleStage.WellFormed ∧
    composeWith {} sampleIncoming sampleStage = ofLinks (some "out.js")
      [⟨⟨1, 0⟩, none⟩, ⟨⟨1, 3⟩, some ⟨"src/b.coffee", ⟨3, 4⟩, some "y", none⟩⟩,
        ⟨⟨2, 0⟩, some ⟨"src/a.coffee", ⟨1, 1⟩, some "x", some "x = 1"⟩⟩] := by
  have hincoming : sampleIncoming.WellFormed := by decide
  have hstage : sampleStage.WellFormed := by decide
  exact ⟨hincoming, hstage, (composeWith_determined_by_links {} hincoming hstage).1⟩

end SourceChain.SourceMap
