import SourceChain.Proofs.SourceMap.Obtainable

/-!
# What a composition does not depend on

Three things in the maps that are composed have no bearing on the composition, or no other than to
be seen in it as they were.

* Texts. Whether they are dropped before composing, while composing or afterwards makes no
  difference (`composeOptional_withoutContents`, `composeOptional_of_withoutContents`).
* The sources of the stage map. They are the buffer in between, which is gone from a composition, so
  neither their names and texts nor their numbers matter (`SameButSources.composeWith_eq`).
* The name of the only source of the incoming map. It can be changed before composing or afterwards
  (`composeWith_relabel`).

The first and the last compare two runs of a draft, of which one has its sources changed
(`Draft.mapSources`). A step of the one run is a step of the other as long as both tables find a
path at the same place (`addSource_mapSources`). To embed a text, a composition numbers its path a
second time; the path is in the table by then, so this adds no source (`addSource_snd_of_mem`).

Maps need not be well formed for any of this, and there may be more strings than 32 bits can number.
-/

namespace SourceChain

/-- The source with no text embedded. -/
def Source.withoutContent (source : Source) : Source :=
  { source with content := none }

/-- The source by another path. -/
def Source.withPath (path : String) (source : Source) : Source :=
  { source with path }

/-- The segment with another number for its source, if it has one. -/
def Segment.withSource (index : UInt32) (s : Segment) : Segment :=
  { s with origin := s.origin.map fun origin ↦ { origin with source := index } }

namespace SourceMap

/-! ### Drafts with their sources changed -/

namespace Draft

/-- The draft with each source changed. -/
def mapSources (f : Source → Source) (b : Draft) : Draft :=
  { b with sources := b.sources.map f }

section MapSources

variable {f : Source → Source} {b : Draft} {path path' : String}

/-- A path has the number that another has after the change, if just its sources are changed to
sources of the other. -/
theorem addSource_mapSources
    (hpath : ∀ source ∈ b.sources, (f source).path = path' ↔ source.path = path)
    (hnew : f ⟨path, none⟩ = ⟨path', none⟩) :
    (b.mapSources f).addSource path' =
      ((b.addSource path).1, (b.addSource path).2.mapSources f) := by
  have hfind : (b.mapSources f).sources.findIdx? (·.path == path') =
      b.sources.findIdx? (·.path == path) := by
    rw [mapSources, Array.findIdx?_map]
    refine Option.ext fun index ↦ ?_
    simp only [Array.findIdx?_eq_some_iff_getElem, Function.comp_apply, beq_iff_eq,
      hpath _ (Array.getElem_mem _)]
  rw [addSource, addSource, hfind]
  split
  next => rfl
  next => simp [mapSources, hnew]

theorem addName_mapSources (f : Source → Source) (b : Draft) (name : String) :
    (b.mapSources f).addName name = ((b.addName name).1, (b.addName name).2.mapSources f) := by
  have hnames : (b.mapSources f).names = b.names := rfl
  rw [addName, addName, hnames]
  split <;> rfl

theorem addMapping_mapSources
    (hpath : ∀ source ∈ b.sources, (f source).path = path' ↔ source.path = path)
    (hnew : f ⟨path, none⟩ = ⟨path', none⟩) (generated position : Position)
    (name : Option String) :
    (b.mapSources f).addMapping generated path' position name =
      (b.addMapping generated path position name).mapSources f := by
  rw [addMapping, addMapping, addSource_mapSources hpath hnew]
  rcases name with - | name
  · rfl
  · dsimp only
    rw [addName_mapSources]
    rfl

theorem mapSources_new (f : Source → Source) (file : Option String) :
    mapSources f { file } = { file } := by
  simp [mapSources]

theorem build_mapSources (f : Source → Source) (b : Draft) :
    (b.mapSources f).build = { b.build with sources := b.build.sources.map f } := by
  show { b.build with sources := (b.mapSources f).build.sources } = _
  rw [sources_build, sources_build]
  rfl

end MapSources

end Draft

/-! ### Texts -/

namespace Draft

variable {b : Draft} {path : String}

/-- The path of a segment that was added is in the table. -/
theorem exists_source_addMapping (b : Draft) (generated : Position) (path : String)
    (position : Position) (name : Option String) :
    ∃ source ∈ (b.addMapping generated path position name).sources, source.path = path := by
  have hadded : ∃ source ∈ (b.addSource path).2.sources, source.path = path := by
    rw [addSource]
    split
    next index hindex =>
      obtain ⟨hlt, hpath, -⟩ := Array.findIdx?_eq_some_iff_getElem.1 hindex
      exact ⟨_, Array.getElem_mem hlt, eq_of_beq hpath⟩
    next => exact ⟨⟨path, none⟩, by simp, rfl⟩
  rw [addMapping]
  rcases name with - | name
  · exact hadded
  · dsimp only
    rw [addSegment, sources_addName]
    exact hadded

/-- Numbering a path that is in the table changes nothing. -/
theorem addSource_snd_of_mem (h : ∃ source ∈ b.sources, source.path = path) :
    (b.addSource path).2 = b := by
  obtain ⟨source, hmem, hpath⟩ := h
  rw [addSource]
  split
  next => rfl
  next hnone => exact absurd hpath (by simpa using Array.findIdx?_eq_none_iff.1 hnone source hmem)

theorem setContent_mapSources_withoutContent (b : Draft) (index : UInt32) (text : String) :
    (b.setContent index text).mapSources Source.withoutContent =
      b.mapSources Source.withoutContent := by
  have hsources : (b.sources.modify index.toNat fun source ↦
      { source with content := some text }).map Source.withoutContent =
        b.sources.map Source.withoutContent := by
    refine Array.ext (by simp) fun place _ _ ↦ ?_
    simp only [Array.getElem_map, Array.getElem_modify]
    split <;> rfl
  exact congrArg (fun sources ↦ { b with sources }) hsources

/-- Embedding a text in a source that is there changes nothing but texts. -/
theorem embed_mapSources_withoutContent (h : ∃ source ∈ b.sources, source.path = path)
    (text : Option String) :
    (b.embed path text).mapSources Source.withoutContent =
      b.mapSources Source.withoutContent := by
  rcases text with - | text
  · rfl
  · show ((b.addSource path).2.setContent _ text).mapSources _ = _
    rw [setContent_mapSources_withoutContent, addSource_snd_of_mem h]

/-- A step that may embed texts is one that does not, but for texts. -/
theorem addStage_mapSources_withoutContent (options : ComposeOptions) (incoming stage : SourceMap)
    (b : Draft) (s : Segment) :
    (b.mapSources Source.withoutContent).addStage incoming stage ⟨false⟩ s =
      (b.addStage incoming stage options s).mapSources Source.withoutContent := by
  have hpath (path : String) :
      ∀ source ∈ b.sources, source.withoutContent.path = path ↔ source.path = path :=
    fun _ _ ↦ Iff.rfl
  rw [addStage, addStage]
  split
  next => rfl
  next =>
    split
    next => rfl
    next =>
      split
      next => rfl
      next path _ =>
        dsimp only
        rw [addMapping_mapSources (hpath path) rfl, if_neg Bool.false_ne_true]
        split
        next => rw [embed_mapSources_withoutContent (exists_source_addMapping ..)]
        next => rfl

end Draft

@[simp]
theorem resolvedSource?_withoutContents (m : SourceMap) (index : UInt32) :
    m.withoutContents.resolvedSource? index = m.resolvedSource? index := by
  rw [resolvedSource?, withoutContents, Array.getElem?_map, Option.map_map]
  rfl

@[simp]
theorem content?_withoutContents (m : SourceMap) (index : UInt32) :
    m.withoutContents.content? index = none := by
  rw [content?, withoutContents, Array.getElem?_map]
  rcases m.sources[index.toNat]? with - | source <;> rfl

theorem withoutContents_withoutContents (m : SourceMap) :
    m.withoutContents.withoutContents = m.withoutContents := by
  simp [withoutContents]

theorem relabel_withoutContents (m : SourceMap) (path : String) :
    m.withoutContents.relabel path = (m.relabel path).withoutContents := by
  have hlist : m.withoutContents.sources.toList = m.sources.toList.map Source.withoutContent :=
    Array.toList_map
  rw [relabel, hlist, relabel]
  rcases m.sources.toList with - | ⟨only, - | ⟨second, rest⟩⟩
  · rfl
  · simp [withoutContents, Source.withoutContent]
  · rfl

/-- Dropping texts after composing is composing without them. -/
theorem composeWith_withoutContents (options : ComposeOptions) (incoming stage : SourceMap) :
    (composeWith options incoming stage).withoutContents =
      composeWith ⟨false⟩ incoming stage := by
  have hrun : stage.segments.foldl (Draft.addStage incoming stage ⟨false⟩)
      (Draft.mapSources Source.withoutContent { file := stage.file }) =
        (stage.segments.foldl (Draft.addStage incoming stage options)
          { file := stage.file }).mapSources Source.withoutContent :=
    List.foldl_hom _ (Draft.addStage_mapSources_withoutContent options incoming stage)
  rw [Draft.mapSources_new] at hrun
  rw [composeWith_eq_draft, composeWith_eq_draft, hrun, Draft.build_mapSources]
  rfl

/-- Dropping texts before composing is composing without them. -/
theorem composeWith_of_withoutContents (options : ComposeOptions) (incoming stage : SourceMap) :
    composeWith options incoming.withoutContents stage.withoutContents =
      composeWith ⟨false⟩ incoming stage := by
  have hstep : Draft.addStage incoming.withoutContents stage.withoutContents options =
      Draft.addStage incoming stage ⟨false⟩ := by
    funext b s
    rw [Draft.addStage, Draft.addStage]
    rcases s.origin with - | via
    · rfl
    have hresolve : resolveOrigin? incoming.withoutContents via.position =
        resolveOrigin? incoming via.position := rfl
    dsimp only
    rw [hresolve]
    rcases resolveOrigin? incoming via.position with - | origin
    · rfl
    dsimp only
    rw [resolvedSource?_withoutContents, content?_withoutContents]
    rcases incoming.resolvedSource? origin.source with - | path
    · rfl
    · -- without a text there is nothing to embed, so the option makes no difference
      simp only [Draft.embed, ite_self]
      rfl
  rw [composeWith_eq_draft, composeWith_eq_draft, hstep]
  rfl

theorem composeOptional_withoutContents (options : ComposeOptions) (incoming : Option SourceMap)
    (stage : SourceMap) (path : String) :
    (composeOptional options incoming stage path).withoutContents =
      composeOptional ⟨false⟩ incoming stage path := by
  rcases incoming with - | incoming
  · show (if options.sourcesContent then stage.relabel path
      else (stage.relabel path).withoutContents).withoutContents =
        (stage.relabel path).withoutContents
    split
    next => rfl
    next => exact withoutContents_withoutContents _
  · exact composeWith_withoutContents options incoming stage

theorem composeOptional_of_withoutContents (options : ComposeOptions) (incoming : Option SourceMap)
    (stage : SourceMap) (path : String) :
    composeOptional options (incoming.map withoutContents) stage.withoutContents path =
      composeOptional ⟨false⟩ incoming stage path := by
  rcases incoming with - | incoming
  · show (if options.sourcesContent then stage.withoutContents.relabel path
      else (stage.withoutContents.relabel path).withoutContents) =
        (stage.relabel path).withoutContents
    rw [relabel_withoutContents]
    split
    next => rfl
    next => exact withoutContents_withoutContents _
  · exact composeWith_of_withoutContents options incoming stage

/-! ### The sources of the stage map -/

/-- Two maps that differ in nothing but their own sources: in the sources and their texts, in the
source root, and in the numbers that segments give for sources. -/
structure SameButSources (m m' : SourceMap) : Prop where
  /-- They are for one file. -/
  file : m'.file = m.file
  /-- They have the same names. -/
  names : m'.names = m.names
  /-- They have the same segments, once all numbers of sources are made equal. -/
  segments : m'.segments.map (·.withSource 0) = m.segments.map (·.withSource 0)

theorem sameButSources_relabel (m : SourceMap) (path : String) :
    SameButSources m (m.relabel path) := by
  rw [relabel]
  split <;> exact ⟨rfl, rfl, rfl⟩

/-- The number of a source in a stage segment is not looked at. -/
theorem addStage_withSource (incoming stage : SourceMap) (options : ComposeOptions) (b : Draft)
    (s : Segment) (index : UInt32) :
    b.addStage incoming stage options (s.withSource index) =
      b.addStage incoming stage options s := by
  obtain ⟨generated, - | via⟩ := s <;> rfl

theorem composeWith_eq_foldl_withSource (options : ComposeOptions) (incoming stage : SourceMap)
    (index : UInt32) :
    composeWith options incoming stage =
      ((stage.segments.map (·.withSource index)).foldl (Draft.addStage incoming stage options)
        { file := stage.file }).build := by
  rw [List.foldl_map, composeWith_eq_draft]
  simp only [addStage_withSource]

/-- A composition is the same whatever the sources of the stage map are. -/
theorem SameButSources.composeWith_eq {stage stage' : SourceMap} (h : SameButSources stage stage')
    (options : ComposeOptions) (incoming : SourceMap) :
    composeWith options incoming stage' = composeWith options incoming stage := by
  have hstep : Draft.addStage incoming stage' options =
      Draft.addStage incoming stage options := by
    have hname : stage'.name? = stage.name? := by
      funext index
      rw [name?, name?, h.names]
    funext b s
    rw [Draft.addStage, Draft.addStage, hname]
  rw [composeWith_eq_foldl_withSource options incoming stage' 0, h.segments, h.file, hstep,
    ← composeWith_eq_foldl_withSource]

/-! ### The name of the only source -/

namespace Draft

/-- A draft without a source root, and without a source, or with one source by the given path. -/
structure HasOnly (path : String) (b : Draft) : Prop where
  /-- There is no source root. -/
  root : b.sourceRoot = none
  /-- There is no source, or one by the path. -/
  sources : b.sources = #[] ∨ ∃ content, b.sources = #[⟨path, content⟩]

namespace HasOnly

variable {b : Draft} {path : String}

theorem path_withPath_iff (h : HasOnly path b) (path' : String) :
    ∀ source ∈ b.sources, (source.withPath path').path = path' ↔ source.path = path := by
  intro source hsource
  refine iff_of_true rfl ?_
  obtain hnone | ⟨content, hone⟩ := h.sources
  · simp [hnone] at hsource
  · rw [hone] at hsource
    rw [Array.mem_singleton.1 hsource]

/-- Nothing but the root and the sources matters. -/
theorem of_eq {b' : Draft} (h : HasOnly path b) (hroot : b'.sourceRoot = b.sourceRoot)
    (hsources : b'.sources = b.sources) : HasOnly path b' :=
  ⟨hroot.trans h.root, hsources ▸ h.sources⟩

theorem addSource (h : HasOnly path b) : HasOnly path (b.addSource path).2 := by
  obtain hnone | ⟨content, hone⟩ := h.sources
  · have hadd : (b.addSource path).2 = { b with sources := #[⟨path, none⟩] } := by
      simp [Draft.addSource, hnone]
    rw [hadd]
    exact ⟨h.root, .inr ⟨none, rfl⟩⟩
  · rw [addSource_snd_of_mem ⟨⟨path, content⟩, by simp [hone], rfl⟩]
    exact h

theorem addMapping (h : HasOnly path b) (generated position : Position) (name : Option String) :
    HasOnly path (b.addMapping generated path position name) := by
  rw [Draft.addMapping]
  rcases name with - | name
  · exact h.addSource.of_eq rfl rfl
  · obtain ⟨index, -, hadd⟩ | hadd := addName_cases (b.addSource path).2 name
    all_goals
      dsimp only
      rw [hadd]
      exact h.addSource.of_eq rfl rfl

theorem setContent (h : HasOnly path b) (index : UInt32) (text : String) :
    HasOnly path (b.setContent index text) := by
  refine ⟨h.root, ?_⟩
  rw [Draft.setContent]
  obtain hnone | ⟨content, hone⟩ := h.sources
  · exact .inl (by simp [hnone])
  · refine .inr ?_
    rw [hone]
    rcases index.toNat with - | place
    · exact ⟨some text, rfl⟩
    · exact ⟨content, rfl⟩

theorem embed (h : HasOnly path b) (text : Option String) : HasOnly path (b.embed path text) := by
  rcases text with - | text
  · exact h
  · exact h.addSource.setContent _ text

end HasOnly

/-- To embed a text is not to look at the path of the source. -/
theorem setContent_mapSources_withPath (path : String) (b : Draft) (index : UInt32)
    (text : String) :
    (b.mapSources (Source.withPath path)).setContent index text =
      (b.setContent index text).mapSources (Source.withPath path) := by
  have hsources : (b.sources.map (Source.withPath path)).modify index.toNat (fun source ↦
      { source with content := some text }) =
        (b.sources.modify index.toNat fun source ↦ { source with content := some text }).map
          (Source.withPath path) := by
    refine Array.ext (by simp) fun place _ _ ↦ ?_
    simp only [Array.getElem_map, Array.getElem_modify]
    split <;> rfl
  exact congrArg (fun sources ↦ { b with sources }) hsources

theorem embed_mapSources_withPath {b : Draft} {path : String} (h : HasOnly path b)
    (path' : String) (text : Option String) :
    (b.mapSources (Source.withPath path')).embed path' text =
      (b.embed path text).mapSources (Source.withPath path') := by
  rcases text with - | text
  · rfl
  · rw [embed, embed, addSource_mapSources (h.path_withPath_iff path') rfl]
    exact setContent_mapSources_withPath path' _ _ text

end Draft

section Relabel

variable {m incoming : SourceMap} {only : Source} {b : Draft} {path : String}

/-- Which source is meant can be told only of one, so any other map keeps its sources. -/
theorem relabel_of_size_ne_one (h : m.sources.size ≠ 1) (path : String) : m.relabel path = m := by
  rw [relabel]
  split
  next only honly => exact absurd (by rw [← Array.length_toList, honly]; rfl) h
  next => rfl

theorem relabel_of_sources_eq (h : m.sources = #[only]) (path : String) :
    m.relabel path = { m with sources := #[only.withPath path], sourceRoot := none } := by
  simp [relabel, h, Source.withPath]

theorem resolveOrigin?_relabel (m : SourceMap) (path : String) (p : Position) :
    resolveOrigin? (m.relabel path) p = resolveOrigin? m p := by
  rw [relabel]
  split <;> rfl

theorem name?_relabel (m : SourceMap) (path : String) : (m.relabel path).name? = m.name? := by
  rw [relabel]
  split <;> rfl

theorem content?_relabel (m : SourceMap) (path : String) (index : UInt32) :
    (m.relabel path).content? index = m.content? index := by
  rw [relabel]
  split
  next only honly =>
    have hsources : m.sources = #[only] := Array.toList_inj.1 honly
    rw [content?, content?, hsources]
    rcases index.toNat with - | place <;> rfl
  next => rfl

/-- The same numbers lead to a source after the renaming, and to the new path. -/
theorem resolvedSource?_relabel (h : m.sources = #[only]) (path : String) (index : UInt32) :
    (m.relabel path).resolvedSource? index = (m.resolvedSource? index).map fun _ ↦ path := by
  rw [relabel_of_sources_eq h, resolvedSource?, resolvedSource?, h]
  rcases index.toNat with - | place <;> rfl

theorem eq_of_resolvedSource? (h : m.sources = #[only]) {index : UInt32} {found : String}
    (hfound : m.resolvedSource? index = some found) : found = m.resolve only.path := by
  obtain ⟨source, hsource, rfl⟩ := Option.map_eq_some_iff.1 hfound
  have hmem := Array.mem_of_getElem? hsource
  rw [h] at hmem
  rw [Array.mem_singleton.1 hmem]

/-- A step adds no source but the only one of the incoming map. -/
theorem Draft.HasOnly.addStage (h : b.HasOnly (incoming.resolve only.path))
    (honly : incoming.sources = #[only]) (options : ComposeOptions) (stage : SourceMap)
    (s : Segment) :
    (b.addStage incoming stage options s).HasOnly (incoming.resolve only.path) := by
  rw [Draft.addStage]
  split
  next => exact h.of_eq rfl rfl
  next =>
    split
    next => exact h
    next =>
      split
      next => exact h
      next found hfound =>
        obtain rfl := eq_of_resolvedSource? honly hfound
        dsimp only
        split
        next => exact (h.addMapping _ _ _).embed _
        next => exact h.addMapping _ _ _

/-- A step with the renamed map is one with the map as it was, but for the name. -/
theorem addStage_relabel (h : b.HasOnly (incoming.resolve only.path))
    (honly : incoming.sources = #[only]) (options : ComposeOptions) (stage : SourceMap)
    (path : String) (s : Segment) :
    (b.mapSources (Source.withPath path)).addStage (incoming.relabel path) stage options s =
      (b.addStage incoming stage options s).mapSources (Source.withPath path) := by
  rw [Draft.addStage, Draft.addStage]
  split
  next => rfl
  next =>
    rw [resolveOrigin?_relabel, name?_relabel]
    split
    next => rfl
    next origin _ =>
      rw [resolvedSource?_relabel honly, content?_relabel]
      rcases hfound : incoming.resolvedSource? origin.source with - | found
      · rfl
      obtain rfl := eq_of_resolvedSource? honly hfound
      dsimp only [Option.map_some]
      rw [Draft.addMapping_mapSources (h.path_withPath_iff path) rfl]
      split
      next => exact Draft.embed_mapSources_withPath (h.addMapping _ _ _) _ _
      next => rfl

theorem build_mapSources_withPath (h : b.HasOnly path) (path' : String) :
    (b.mapSources (Source.withPath path')).build = b.build.relabel path' := by
  have hroot : b.build.sourceRoot = none := h.root
  rw [Draft.build_mapSources, Draft.sources_build]
  obtain hnone | ⟨content, hone⟩ := h.sources
  · have hsources : b.build.sources = #[] := by rw [Draft.sources_build, hnone]
    have hsize : b.build.sources.size ≠ 1 := by simp [hnone]
    rw [relabel_of_size_ne_one hsize, hnone, Array.map_empty, ← hsources]
  · have hsources : b.build.sources = #[⟨path, content⟩] := by rw [Draft.sources_build, hone]
    have hmap : (#[⟨path, content⟩] : Array Source).map (Source.withPath path') =
        #[Source.withPath path' ⟨path, content⟩] := by simp
    rw [relabel_of_sources_eq hsources, hone, hmap, ← hroot]

/-- A run with the renamed map is one with the map as it was, but for the name. -/
theorem foldl_addStage_relabel (h : b.HasOnly (incoming.resolve only.path))
    (honly : incoming.sources = #[only]) (options : ComposeOptions) (stage : SourceMap)
    (path : String) (segments : List Segment) :
    (segments.foldl (Draft.addStage incoming stage options) b).HasOnly
        (incoming.resolve only.path) ∧
      segments.foldl (Draft.addStage (incoming.relabel path) stage options)
          (b.mapSources (Source.withPath path)) =
        (segments.foldl (Draft.addStage incoming stage options) b).mapSources
          (Source.withPath path) := by
  induction segments generalizing b with
  | nil => exact ⟨h, rfl⟩
  | cons s segments ih =>
    rw [List.foldl_cons, List.foldl_cons, addStage_relabel h honly]
    exact ih (h.addStage honly options stage s)

/-- To rename the only source of the incoming map is to rename that of the composition. -/
theorem composeWith_relabel (honly : incoming.sources = #[only]) (options : ComposeOptions)
    (stage : SourceMap) (path : String) :
    composeWith options (incoming.relabel path) stage =
      (composeWith options incoming stage).relabel path := by
  have hstart : Draft.HasOnly (incoming.resolve only.path) { file := stage.file } :=
    ⟨rfl, .inl rfl⟩
  obtain ⟨honly', hrun⟩ :=
    foldl_addStage_relabel hstart honly options stage path stage.segments
  rw [Draft.mapSources_new] at hrun
  rw [composeWith_eq_draft, hrun, build_mapSources_withPath honly', composeWith_eq_draft]

end Relabel

/-- A composition does not depend on the sources of the stage map, so renaming one leaves it as it
is. Renaming the only source of the incoming map renames that of the composition, if it has one. -/
theorem composeWith_commutes_relabel (options : ComposeOptions) (incoming stage : SourceMap)
    (path : String) :
    (∀ stage', SameButSources stage stage' →
      composeWith options incoming stage' = composeWith options incoming stage) ∧
    composeWith options incoming (stage.relabel path) = composeWith options incoming stage ∧
    (incoming.sources.size = 1 →
      composeWith options (incoming.relabel path) stage =
        (composeWith options incoming stage).relabel path) := by
  refine ⟨fun stage' h ↦ h.composeWith_eq options incoming,
    (sameButSources_relabel stage path).composeWith_eq options incoming, fun hsize ↦ ?_⟩
  obtain ⟨only, honly⟩ := Array.size_eq_one_iff.1 hsize
  exact composeWith_relabel honly options stage path

/-- The map `sampleStage` with two sources under a root, of which the second is pointed at. -/
def sampleElsewhere : SourceMap :=
  ofTrusted {
    file := some "out.js"
    sourceRoot := some "lib"
    paths := ["a.js", "b.js"]
    contents := [none, some "y"]
    names := ["y"]
    segments := [⟨⟨1, 0⟩, none⟩, ⟨⟨1, 3⟩, some ⟨1, ⟨1, 6⟩, some 0⟩⟩,
      ⟨⟨1, 5⟩, some ⟨0, ⟨2, 1⟩, none⟩⟩, ⟨⟨2, 0⟩, some ⟨1, ⟨1, 1⟩, some 0⟩⟩] }

theorem composeWith_commutes_relabel_sample :
    sampleElsewhere.WellFormed ∧ SameButSources sampleStage sampleElsewhere ∧
      composeWith {} sampleIncoming sampleElsewhere = composeWith {} sampleIncoming sampleStage ∧
      sampleStage.sources.size = 1 ∧
      composeWith {} (sampleStage.relabel "first.js") sampleStage =
        (composeWith {} sampleStage sampleStage).relabel "first.js" := by
  have hsame : SameButSources sampleStage sampleElsewhere := ⟨rfl, rfl, by decide⟩
  exact ⟨by decide, hsame,
    (composeWith_commutes_relabel {} sampleIncoming sampleStage "first.js").1 _ hsame, rfl,
    (composeWith_commutes_relabel {} sampleStage sampleStage "first.js").2.2 rfl⟩

end SourceMap

end SourceChain
