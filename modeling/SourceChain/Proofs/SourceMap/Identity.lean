import SourceChain.Proofs.SourceMap.Independence

/-!
# The map that is absent

Without an incoming map the intermediate buffer is itself the source, and the stage map stays as it
is but for the name of its only source. That is what composing with an identity comes to
(`composeOptional_none_eq_identity`): with any map that leads each of its segments to where that
segment stands, in one source by the given path.

The two are computed on different ways, one by renaming an entry of a table, the other by looking up
and numbering anew segment by segment, and their tables need not agree. What they have in common is
what their segments say, and both say what `ownLinks` does. An identity may have as few segments as
it likes, as long as it covers what is looked up: the distance from the segment before is carried
over, so a position that is covered at all is carried to itself (`IsIdentity.exists_carry?`).
-/

namespace SourceChain.SourceMap

variable {m incoming stage : SourceMap} {only : Source} {path : String}

/-! ### What segments say -/

/-- The names of the segments, in order. -/
def segmentNames (m : SourceMap) : List (Option String) :=
  m.segments.map fun s ↦ s.origin.bind fun origin ↦ origin.name.bind m.name?

/-- A map of the given file whose segments say what links do, whatever its tables are. -/
structure Says (m : SourceMap) (file : Option String) (links : List Link) : Prop where
  /-- It is for the file. -/
  file : m.file = file
  /-- The segments lead to the paths and positions of the links. -/
  resolved : m.resolvedSegments = links.map fun l ↦
    (l.generated, l.location.map fun location ↦ (location.source, location.position))
  /-- The segments have the names of the links. -/
  names : m.segmentNames = links.map fun l ↦ l.location.bind (·.name)

theorem says_ofLinks {file : Option String} {links : List Link}
    (hpaths : (Link.paths links).eraseDups.length ≤ UInt32.size)
    (hnames : (Link.names links).eraseDups.length ≤ UInt32.size) :
    (ofLinks file links).Says file links where
  file := rfl
  resolved := resolvedSegments_ofLinks hpaths
  names := map_name?_segments_ofLinks (by simpa [ofLinks, ofTrusted, ofMappings] using hnames)

/-- Texts are nothing that segments say. -/
theorem Says.withoutContents {file : Option String} {links : List Link} (h : m.Says file links) :
    m.withoutContents.Says file links where
  file := h.file
  resolved := by
    rw [← h.resolved, resolvedSegments, resolvedSegments, segments_withoutContents]
    simp only [resolvedSource?_withoutContents]
  names := h.names

/-! ### A buffer that is itself the source -/

/-- What the segments of a map become if the buffer that they point into is itself the source, by
the given path. -/
def ownLinks (path : String) (m : SourceMap) : List Link :=
  m.segments.map fun s ↦
    ⟨s.generated, s.origin.map fun via ↦ ⟨path, via.position, via.name.bind m.name?, none⟩⟩

/-- Each name of such a link has a number in the map. -/
theorem length_eraseDups_names_ownLinks_le (path : String) (m : SourceMap) :
    (Link.names (ownLinks path m)).eraseDups.length ≤ UInt32.size := by
  refine length_eraseDups_le_of_numbered (f := m.name?) fun name hname ↦ ?_
  obtain ⟨l, hl, hmention⟩ := List.mem_filterMap.1 hname
  obtain ⟨location, hlocation, hfound⟩ := Option.bind_eq_some_iff.1 hmention
  obtain ⟨s, -, rfl⟩ := List.mem_map.1 hl
  obtain ⟨via, -, rfl⟩ := Option.map_eq_some_iff.1 hlocation
  obtain ⟨index, -, hindex⟩ := Option.bind_eq_some_iff.1 hfound
  exact ⟨index, hindex⟩

/-- Each segment of a well-formed map with one source points at that. -/
theorem WellFormed.resolvedSource?_of_only (h : m.WellFormed) (honly : m.sources = #[only])
    {s : Segment} (hs : s ∈ m.segments) {origin : Origin} (horigin : s.origin = some origin) :
    m.resolvedSource? origin.source = some (m.resolve only.path) := by
  have hlt := ((h.valid s hs).origin origin horigin).source_lt
  have hsource : m.sources[origin.source.toNat]? = some m.sources[origin.source.toNat] :=
    Array.getElem?_eq_getElem hlt
  obtain ⟨found, hfound⟩ : ∃ found, m.resolvedSource? origin.source = some found :=
    ⟨_, by rw [resolvedSource?, hsource, Option.map_some]⟩
  rw [hfound, eq_of_resolvedSource? honly hfound]

/-- Renaming the only source makes the buffer itself the source. -/
theorem says_relabel (h : m.WellFormed) (honly : m.sources = #[only]) (path : String) :
    (m.relabel path).Says m.file (ownLinks path m) where
  file := (sameButSources_relabel m path).file
  resolved := by
    rw [resolvedSegments, segments_relabel, ownLinks, List.map_map]
    refine List.map_congr_left fun s hs ↦ ?_
    rcases horigin : s.origin with - | origin
    · simp [horigin]
    · have hsource := h.resolvedSource?_of_only honly hs horigin
      simp [horigin, resolvedSource?_relabel honly, hsource]
  names := by
    rw [segmentNames, segments_relabel, name?_relabel, ownLinks, List.map_map]
    refine List.map_congr_left fun s _ ↦ ?_
    rcases horigin : s.origin with - | origin <;> simp [horigin]

/-- Composing with no map makes the buffer itself the source. -/
theorem says_composeOptional_none (options : ComposeOptions) (h : stage.WellFormed)
    (honly : stage.sources = #[only]) (path : String) :
    (composeOptional options none stage path).Says stage.file (ownLinks path stage) := by
  have hrelabel := says_relabel h honly path
  rw [composeOptional]
  split
  next => exact hrelabel
  next => exact hrelabel.withoutContents

/-! ### Identities -/

/-- A map that leads each of its segments to where that segment stands, in one source by the given
path that is not embedded. It gives no names. -/
structure IsIdentity (path : String) (m : SourceMap) : Prop where
  /-- There is one source, by the path, and its text is not embedded. -/
  source : ∃ only, m.sources = #[only] ∧ m.resolve only.path = path ∧ only.content = none
  /-- There are no names. -/
  names : m.names = #[]
  /-- Each segment leads to where it stands. -/
  position : ∀ s ∈ m.segments, ∃ origin, s.origin = some origin ∧ origin.position = s.generated

/-- A map covers every position that the mapped segments of a stage map point at. -/
def Covers (incoming stage : SourceMap) : Prop :=
  ∀ s ∈ stage.segments, ∀ via ∈ s.origin, (incoming.lookup via.position).isSome

/-- A position that an identity covers is carried to itself. -/
theorem IsIdentity.exists_carry? (h : IsIdentity path incoming) (hincoming : incoming.WellFormed)
    {p : Position} (hcovered : (incoming.lookup p).isSome) :
    ∃ origin, carry? incoming.segments p = some origin ∧ origin.position = p := by
  obtain ⟨covering, hlookup⟩ := Option.isSome_iff_exists.1 hcovered
  rw [hincoming.lookup_eq] at hlookup
  obtain ⟨hmem, hline, hcolumn⟩ := Mappings.covering?_eq_some hlookup
  obtain ⟨start, horigin, hposition⟩ := h.position covering hmem
  -- the distance that is carried over makes up for where the segment stands
  have hsum : start.position.column.toNat +
      (p.column.toNat - covering.generated.column.toNat) = p.column.toNat := by
    rw [hposition]
    exact Nat.add_sub_of_le (UInt32.le_iff_toNat_le.1 hcolumn)
  rw [carry?, hlookup]
  simp only [horigin, hsum, if_pos p.column.toNat_lt_size]
  refine ⟨_, rfl, ?_⟩
  rw [UInt32.ofNat_toNat, hposition, hline]

/-- An origin of an identity has the path of the identity, no name and no text. -/
theorem IsIdentity.describe?_eq (h : IsIdentity path incoming) {origin : Origin}
    (hsource : ∃ source, incoming.sources[origin.source.toNat]? = some source) :
    incoming.describe? origin = some ⟨path, origin.position, none, none⟩ := by
  obtain ⟨only, honly, rfl, htext⟩ := h.source
  obtain ⟨source, hget⟩ := hsource
  obtain rfl : source = only := by
    have hmem := Array.mem_of_getElem? hget
    rw [honly] at hmem
    exact Array.mem_singleton.1 hmem
  have hname : origin.name.bind incoming.name? = none := by
    rcases origin.name with - | index <;> simp [name?, h.names]
  rw [describe?, resolvedSource?, content?, hget, hname]
  simp [htext]

/-- Through an identity each stage segment becomes what it is by itself. -/
theorem IsIdentity.composedLinks_eq (h : IsIdentity path incoming) (hincoming : incoming.WellFormed)
    (hcovers : incoming.Covers stage) (options : ComposeOptions) :
    composedLinks options incoming stage = ownLinks path stage := by
  rw [composedLinks, ownLinks, ← List.filterMap_eq_map]
  refine List.filterMap_congr fun s hs ↦ ?_
  rw [link?]
  rcases horigin : s.origin with - | via
  · simp [horigin]
  · obtain ⟨origin, hcarry, hposition⟩ := h.exists_carry? hincoming (hcovers s hs via horigin)
    have hdescribe := h.describe?_eq (exists_source_of_carry? hincoming hcarry)
    simp [horigin, hcarry, hdescribe, hposition]

/-- Composing with an identity makes the buffer itself the source. -/
theorem IsIdentity.says_composeWith (h : IsIdentity path incoming) (hincoming : incoming.WellFormed)
    (hstage : stage.WellFormed) (hcovers : incoming.Covers stage) (options : ComposeOptions) :
    (composeWith options incoming stage).Says stage.file (ownLinks path stage) := by
  have hpaths := length_eraseDups_paths_composedLinks_le options incoming stage
  rw [composeWith_eq_ofLinks hincoming hstage]
  rw [h.composedLinks_eq hincoming hcovers] at hpaths ⊢
  exact says_ofLinks hpaths (length_eraseDups_names_ownLinks_le path stage)

/-! ### The absent map -/

/-- A map that is absent means an identity. Composing a stage map of one source with none says the
same as composing it with any identity that covers what the stage points at. A stage map of no
source or of several loses no more than its texts, and these only if they are not wanted. -/
theorem composeOptional_none_eq_identity (options : ComposeOptions) (path : String)
    (hstage : stage.WellFormed) :
    (stage.sources.size = 1 → ∀ incoming : SourceMap, incoming.WellFormed →
      IsIdentity path incoming → incoming.Covers stage →
      let composed := composeOptional options (some incoming) stage path
      let relabelled := composeOptional options none stage path
      composed.file = relabelled.file ∧
        composed.resolvedSegments = relabelled.resolvedSegments ∧
        composed.segmentNames = relabelled.segmentNames) ∧
    (stage.sources.size ≠ 1 →
      composeOptional options none stage path =
        { stage with
          sources := stage.sources.map fun source ↦
            ⟨source.path, if options.sourcesContent then source.content else none⟩ }) := by
  constructor
  · intro hsize incoming hincoming hidentity hcovers composed relabelled
    obtain ⟨only, honly⟩ := Array.size_eq_one_iff.1 hsize
    have hcomposed : composed.Says stage.file (ownLinks path stage) :=
      hidentity.says_composeWith hincoming hstage hcovers options
    have hrelabelled : relabelled.Says stage.file (ownLinks path stage) :=
      says_composeOptional_none options hstage honly path
    exact ⟨hcomposed.file.trans hrelabelled.file.symm,
      hcomposed.resolved.trans hrelabelled.resolved.symm,
      hcomposed.names.trans hrelabelled.names.symm⟩
  · intro hsize
    rw [composeOptional, relabel_of_size_ne_one hsize]
    split
    next => exact congrArg (fun sources ↦ { stage with sources }) (Array.map_id' _).symm
    next => rfl

/-- An identity with a segment at the start of each line and one more, and a source under a root. -/
def sampleIdentity : SourceMap :=
  ofTrusted {
    sourceRoot := some "src/"
    paths := ["mid.js"]
    segments := [⟨⟨1, 0⟩, some ⟨0, ⟨1, 0⟩, none⟩⟩, ⟨⟨1, 4⟩, some ⟨0, ⟨1, 4⟩, none⟩⟩,
      ⟨⟨2, 0⟩, some ⟨0, ⟨2, 0⟩, none⟩⟩] }

theorem composeOptional_sampleIdentity :
    sampleIdentity.WellFormed ∧ sampleStage.WellFormed ∧ sampleElsewhere.WellFormed ∧
      IsIdentity "src/mid.js" sampleIdentity ∧ sampleStage.sources.size = 1 ∧
      sampleIdentity.Covers sampleStage ∧
      (composeOptional {} (some sampleIdentity) sampleStage "src/mid.js").resolvedSegments =
        (composeOptional {} none sampleStage "src/mid.js").resolvedSegments ∧
      sampleElsewhere.sources.size ≠ 1 ∧
      (composeOptional ⟨false⟩ none sampleElsewhere "src/mid.js").sources =
        #[⟨"a.js", none⟩, ⟨"b.js", none⟩] := by
  have hincoming : sampleIdentity.WellFormed := by decide
  have hstage : sampleStage.WellFormed := by decide
  have helsewhere : sampleElsewhere.WellFormed := by decide
  have hidentity : IsIdentity "src/mid.js" sampleIdentity :=
    ⟨⟨⟨"mid.js", none⟩, rfl, by decide, rfl⟩, rfl, by decide⟩
  have hcovers : sampleIdentity.Covers sampleStage := by
    unfold Covers
    decide
  have hsize : sampleElsewhere.sources.size ≠ 1 := by decide
  have hsame := (composeOptional_none_eq_identity {} "src/mid.js" hstage).1 rfl sampleIdentity
    hincoming hidentity hcovers
  have hkept := (composeOptional_none_eq_identity ⟨false⟩ "src/mid.js" helsewhere).2 hsize
  exact ⟨hincoming, hstage, helsewhere, hidentity, rfl, hcovers, hsame.2.1, hsize,
    (congrArg SourceMap.sources hkept).trans (by cbv)⟩

end SourceChain.SourceMap
