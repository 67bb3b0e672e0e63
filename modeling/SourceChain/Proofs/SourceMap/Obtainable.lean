import SourceChain.Proofs.SourceMap.Composition
import SourceChain.SourceMap.Document

/-!
# Every map that can be obtained is well formed

`Obtainable` lists the ways to a source map: reading one, assembling one from parts, building one by
calls whose positions count lines from one, and composing, relabelling or stripping maps. Nothing
else makes a map, and every map it makes is well formed (`Obtainable.wellFormed`); conversely a
well-formed map is one that assembly gives (`obtainable_iff_wellFormed`).

Builders and compositions assemble without checking, so for them the promise is an invariant of the
draft: its segments are valid for the tables as they stand (`Draft.Sound`). Tables only grow, and
a segment is added with numbers that the tables have just given out. This holds even of tables with
more than `2 ^ 32` entries: a number that has wrapped is still below their size.
-/

namespace SourceChain

open SourceMap.Builder (Call sortSegments_perm sortSegments_sorted)

/-- Growing tables keep a segment valid. -/
theorem Segment.Valid.mono {sources names sources' names' : Nat} {s : Segment}
    (h : s.Valid sources names) (hsources : sources ≤ sources') (hnames : names ≤ names') :
    s.Valid sources' names' where
  line_ne_zero := h.line_ne_zero
  origin origin horigin :=
    { line_ne_zero := (h.origin origin horigin).line_ne_zero
      source_lt := Nat.lt_of_lt_of_le (h.origin origin horigin).source_lt hsources
      name_lt := fun name hname ↦
        Nat.lt_of_lt_of_le ((h.origin origin horigin).name_lt name hname) hnames }

namespace SourceMap

/-- The positions that a call takes. -/
def Builder.Call.positions : Call → List Position
  | .map generated _ position _ => [generated, position]
  | .unmapped generated => [generated]
  | _ => []

namespace Draft

/-- The segments of a draft are valid for its tables. -/
def Sound (b : Draft) : Prop :=
  ∀ s ∈ b.segments, s.Valid b.sources.size b.names.size

variable {b : Draft}

/-! ### What each operation does to the tables -/

/-- Numbering a path finds it in the table or puts it at the end. -/
theorem addSource_cases (b : Draft) (path : String) :
    (∃ index < b.sources.size, b.addSource path = (UInt32.ofNat index, b)) ∨
      b.addSource path = (UInt32.ofNat b.sources.size,
        { b with sources := b.sources.push ⟨path, none⟩ }) := by
  rw [Draft.addSource]
  split
  next index hindex =>
    exact .inl ⟨index, (Array.findIdx?_eq_some_iff_getElem.1 hindex).1, rfl⟩
  next => exact .inr rfl

/-- A number is below the size of a table that has its entry, even if it has wrapped. -/
theorem toNat_ofNat_lt {index size : Nat} (h : index < size) :
    (UInt32.ofNat index).toNat < size :=
  Nat.lt_of_le_of_lt (Nat.mod_le _ _) h

/-- A numbered path is in the table, which only grows; nothing else changes. -/
theorem addSource_fst_lt (b : Draft) (path : String) :
    (b.addSource path).1.toNat < (b.addSource path).2.sources.size := by
  obtain ⟨index, hindex, h⟩ | h := addSource_cases b path <;> rw [h]
  · exact toNat_ofNat_lt hindex
  · exact toNat_ofNat_lt (by simp)

theorem size_sources_le_addSource (b : Draft) (path : String) :
    b.sources.size ≤ (b.addSource path).2.sources.size := by
  obtain ⟨index, -, h⟩ | h := addSource_cases b path <;> simp [h]

@[simp]
theorem names_addSource (b : Draft) (path : String) : (b.addSource path).2.names = b.names := by
  obtain ⟨index, -, h⟩ | h := addSource_cases b path <;> rw [h]

@[simp]
theorem segments_addSource (b : Draft) (path : String) :
    (b.addSource path).2.segments = b.segments := by
  obtain ⟨index, -, h⟩ | h := addSource_cases b path <;> rw [h]

/-- Numbering a name finds it in the table or puts it at the end. -/
theorem addName_cases (b : Draft) (name : String) :
    (∃ index < b.names.size, b.addName name = (UInt32.ofNat index, b)) ∨
      b.addName name = (UInt32.ofNat b.names.size, { b with names := b.names.push name }) := by
  rw [Draft.addName]
  split
  next index hindex =>
    exact .inl ⟨index, (Array.findIdx?_eq_some_iff_getElem.1 hindex).1, rfl⟩
  next => exact .inr rfl

/-- A numbered name is in the table, which only grows; nothing else changes. -/
theorem addName_fst_lt (b : Draft) (name : String) :
    (b.addName name).1.toNat < (b.addName name).2.names.size := by
  obtain ⟨index, hindex, h⟩ | h := addName_cases b name <;> rw [h]
  · exact toNat_ofNat_lt hindex
  · exact toNat_ofNat_lt (by simp)

theorem size_names_le_addName (b : Draft) (name : String) :
    b.names.size ≤ (b.addName name).2.names.size := by
  obtain ⟨index, -, h⟩ | h := addName_cases b name <;> simp [h]

@[simp]
theorem sources_addName (b : Draft) (name : String) :
    (b.addName name).2.sources = b.sources := by
  obtain ⟨index, -, h⟩ | h := addName_cases b name <;> rw [h]

@[simp]
theorem segments_addName (b : Draft) (name : String) :
    (b.addName name).2.segments = b.segments := by
  obtain ⟨index, -, h⟩ | h := addName_cases b name <;> rw [h]

@[simp]
theorem size_sources_setContent (b : Draft) (index : UInt32) (text : String) :
    (b.setContent index text).sources.size = b.sources.size := by
  simp [setContent]

/-! ### Every step keeps a draft sound -/

theorem sound_empty : ({} : Draft).Sound := by
  intro s hs
  exact absurd hs (Array.not_mem_empty s)

/-- A draft with the segments of a sound one and tables that are no smaller is sound. -/
theorem Sound.of_le {b' : Draft} (h : b.Sound) (hsegments : b'.segments = b.segments)
    (hsources : b.sources.size ≤ b'.sources.size) (hnames : b.names.size ≤ b'.names.size) :
    b'.Sound := by
  intro s hs
  rw [hsegments] at hs
  exact (h s hs).mono hsources hnames

theorem Sound.addSource (h : b.Sound) (path : String) : (b.addSource path).2.Sound :=
  h.of_le (segments_addSource b path) (size_sources_le_addSource b path)
    (by rw [names_addSource])

theorem Sound.addName (h : b.Sound) (name : String) : (b.addName name).2.Sound :=
  h.of_le (segments_addName b name) (by rw [sources_addName]) (size_names_le_addName b name)

theorem Sound.setContent (h : b.Sound) (index : UInt32) (text : String) :
    (b.setContent index text).Sound :=
  h.of_le rfl (by rw [size_sources_setContent]) (Nat.le_refl _)

theorem Sound.addSegment (h : b.Sound) {s : Segment}
    (hs : s.Valid b.sources.size b.names.size) : (b.addSegment s).Sound := by
  intro t ht
  rcases Array.mem_push.1 ht with ht | rfl
  · exact h t ht
  · exact hs

theorem Sound.addUnmapped (h : b.Sound) {generated : Position} (hline : generated.line ≠ 0) :
    (b.addUnmapped generated).Sound :=
  h.addSegment ⟨hline, by simp⟩

theorem Sound.addMapping (h : b.Sound) {generated position : Position} (path : String)
    (name : Option String) (hgenerated : generated.line ≠ 0) (hposition : position.line ≠ 0) :
    (b.addMapping generated path position name).Sound := by
  -- the name is numbered in the tables that numbering the path leaves, so the path keeps its number
  have hsource := addSource_fst_lt b path
  have hsound := h.addSource path
  rw [Draft.addMapping]
  cases name with
  | none =>
    refine hsound.addSegment ⟨hgenerated, fun origin horigin ↦ ?_⟩
    obtain rfl := Option.some.inj horigin
    exact ⟨hposition, hsource, by simp⟩
  | some name =>
    refine (hsound.addName name).addSegment ⟨hgenerated, fun origin horigin ↦ ?_⟩
    obtain rfl := Option.some.inj horigin
    refine ⟨hposition, by rwa [sources_addName], fun index hindex ↦ ?_⟩
    obtain rfl := Option.some.inj hindex
    exact addName_fst_lt _ name

theorem Sound.embed (h : b.Sound) (path : String) (text : Option String) :
    (b.embed path text).Sound := by
  cases text with
  | none => exact h
  | some text => exact (h.addSource path).setContent _ text

/-- A call keeps a draft sound, if its positions count lines from one. -/
theorem Sound.perform (h : b.Sound) {call : Call} (hlines : ∀ p ∈ call.positions, p.line ≠ 0) :
    (b.perform call).2.Sound := by
  cases call with
  | map generated path position name =>
    exact h.addMapping path name (hlines generated (by simp [Call.positions]))
      (hlines position (by simp [Call.positions]))
  | unmapped generated => exact h.addUnmapped (hlines generated (by simp [Call.positions]))
  | source path => exact h.addSource path
  | name name => exact h.addName name
  | content index text => exact h.setContent index text
  | file file => exact h
  | root root => exact h

theorem Sound.performAll (h : b.Sound) {calls : List Call}
    (hlines : ∀ call ∈ calls, ∀ p ∈ call.positions, p.line ≠ 0) :
    (b.performAll calls).2.Sound := by
  induction calls generalizing b with
  | nil => exact h
  | cons call calls ih =>
    exact ih (h.perform (hlines call List.mem_cons_self))
      fun call hcall ↦ hlines call (List.mem_cons_of_mem _ hcall)

/-- What a sound draft builds is well formed. -/
theorem Sound.build (h : b.Sound) : b.build.WellFormed := by
  refine wellFormed_ofTrusted (sortSegments_sorted _) fun s hs ↦ ?_
  -- sorting only moves segments
  have hmem : s ∈ b.segments.toList := (sortSegments_perm _).mem_iff.1 hs
  simpa [toParts] using h s (Array.mem_toList_iff.1 hmem)

end Draft

variable {m incoming stage : SourceMap} {options : ComposeOptions}

/-! ### Compositions -/

/-- The line of a resolved origin is that of a segment of the incoming map. -/
theorem line_ne_zero_of_resolveOrigin? (h : incoming.WellFormed) {p : Position} {origin : Origin}
    (hresolve : resolveOrigin? incoming p = some origin) : origin.position.line ≠ 0 := by
  rw [resolveOrigin?_eq_carry? h] at hresolve
  obtain ⟨covering, hmem, start, hstart, -, hline⟩ := exists_of_carry?_eq_some hresolve
  rw [hline]
  exact ((h.valid covering hmem).origin start hstart).line_ne_zero

/-- A stage segment on a line from one on keeps a draft sound, whether or not it is added. -/
theorem Draft.Sound.addStage {b : Draft} (h : b.Sound) (hincoming : incoming.WellFormed)
    {s : Segment} (hline : s.generated.line ≠ 0) : (b.addStage incoming stage options s).Sound := by
  rw [Draft.addStage]
  split
  next => exact h.addUnmapped hline
  next via hvia =>
    split
    next => exact h
    next origin horigin =>
      split
      next => exact h
      next path hpath =>
        have hposition := line_ne_zero_of_resolveOrigin? hincoming horigin
        dsimp only
        split
        · exact (h.addMapping path _ hline hposition).embed path _
        · exact h.addMapping path _ hline hposition

theorem Draft.Sound.foldl_addStage (options : ComposeOptions) (stage : SourceMap) {b : Draft}
    (h : b.Sound) (hincoming : incoming.WellFormed) {segments : List Segment}
    (hlines : ∀ s ∈ segments, s.generated.line ≠ 0) :
    (segments.foldl (Draft.addStage incoming stage options) b).Sound := by
  induction segments generalizing b with
  | nil => exact h
  | cons s segments ih =>
    exact ih (h.addStage hincoming (hlines s List.mem_cons_self))
      fun t ht ↦ hlines t (List.mem_cons_of_mem _ ht)

theorem wellFormed_composeWith (options : ComposeOptions) (hincoming : incoming.WellFormed)
    (hstage : stage.WellFormed) : (composeWith options incoming stage).WellFormed := by
  have hstart : Draft.Sound { file := stage.file } :=
    Draft.sound_empty.of_le rfl (Nat.le_refl _) (Nat.le_refl _)
  have hrun := hstart.foldl_addStage options stage hincoming fun s hs ↦ (hstage.valid s hs).line_ne_zero
  rw [composeWith_eq_draft]
  exact hrun.build

/-! ### Derived maps -/

/-- The promise is about mappings and sizes of tables alone. -/
theorem WellFormed.of_mappings_eq {m' : SourceMap} (h : m.WellFormed)
    (hmappings : m'.mappings = m.mappings) (hsources : m'.sources.size = m.sources.size)
    (hnames : m'.names.size = m.names.size) : m'.WellFormed := by
  have hsegments : m'.segments = m.segments := by rw [segments, segments, hmappings]
  exact
    { sorted := hsegments ▸ h.sorted
      valid := by
        rw [hsegments, hsources, hnames]
        exact h.valid
      size_lineOffsets := hmappings ▸ h.size_lineOffsets
      getElem_lineOffsets := by
        rw [hsegments, hmappings]
        exact h.getElem_lineOffsets }

theorem WellFormed.relabel (h : m.WellFormed) (path : String) : (m.relabel path).WellFormed := by
  rw [SourceMap.relabel]
  split
  next only honly =>
    have hsize : m.sources.size = 1 := by
      rw [← Array.length_toList, honly]
      rfl
    exact h.of_mappings_eq rfl hsize.symm rfl
  next => exact h

theorem WellFormed.withoutContents (h : m.WellFormed) : m.withoutContents.WellFormed :=
  h.of_mappings_eq rfl (by simp [SourceMap.withoutContents]) rfl

theorem WellFormed.composeOptional {incoming : Option SourceMap} (hstage : stage.WellFormed)
    (hincoming : ∀ m, incoming = some m → m.WellFormed) (options : ComposeOptions)
    (path : String) : (composeOptional options incoming stage path).WellFormed := by
  cases incoming with
  | some incoming => exact wellFormed_composeWith options (hincoming incoming rfl) hstage
  | none =>
    rw [SourceMap.composeOptional]
    split
    · exact hstage.relabel path
    · exact (hstage.relabel path).withoutContents

theorem wellFormed_of_ofDocument {d : Document} (h : ofDocument d = .ok m) : m.WellFormed := by
  rw [ofDocument] at h
  split at h
  next => cases h
  next =>
    split at h
    next => cases h
    next mappings _ => exact wellFormed_of_ofParts h

theorem wellFormed_of_ofOctets {octets : List UInt8} (h : ofOctets octets = .ok m) :
    m.WellFormed := by
  rw [ofOctets] at h
  split at h
  next => cases h
  next d _ => exact wellFormed_of_ofDocument h

theorem wellFormed_of_ofValue {v : Json.Value} (h : ofValue v = .ok m) : m.WellFormed := by
  rw [ofValue] at h
  split at h
  next => cases h
  next d _ => exact wellFormed_of_ofDocument h

/-! ### Obtainable maps -/

/-- The maps that there is a way to. -/
inductive Obtainable : SourceMap → Prop where
  /-- Reading a JSON text. -/
  | ofOctets {octets : List UInt8} {m : SourceMap} (h : ofOctets octets = .ok m) : Obtainable m
  /-- Reading a JSON value. -/
  | ofValue {v : Json.Value} {m : SourceMap} (h : ofValue v = .ok m) : Obtainable m
  /-- Assembling parts. -/
  | ofParts {parts : Parts} {m : SourceMap} (h : ofParts parts = .ok m) : Obtainable m
  /-- Building a map by calls whose positions count lines from one. -/
  | build (calls : List Call) (hlines : ∀ call ∈ calls, ∀ p ∈ call.positions, p.line ≠ 0) :
    Obtainable (({} : Builder).performAll calls).2.build
  /-- Composing two maps. -/
  | compose {incoming stage : SourceMap} (hincoming : Obtainable incoming)
    (hstage : Obtainable stage) : Obtainable (compose incoming stage)
  /-- Composing two maps with options. -/
  | composeWith (options : ComposeOptions) {incoming stage : SourceMap}
    (hincoming : Obtainable incoming) (hstage : Obtainable stage) :
    Obtainable (composeWith options incoming stage)
  /-- Composing with a map that may be absent. -/
  | composeOptional (options : ComposeOptions) {incoming : Option SourceMap} {stage : SourceMap}
    (path : String) (hincoming : ∀ m, incoming = some m → Obtainable m)
    (hstage : Obtainable stage) : Obtainable (composeOptional options incoming stage path)
  /-- Renaming the only source. -/
  | relabel {m : SourceMap} (path : String) (h : Obtainable m) : Obtainable (m.relabel path)
  /-- Dropping the embedded texts. -/
  | withoutContents {m : SourceMap} (h : Obtainable m) : Obtainable m.withoutContents

theorem Obtainable.wellFormed (h : Obtainable m) : m.WellFormed := by
  induction h with
  | ofOctets h => exact wellFormed_of_ofOctets h
  | ofValue h => exact wellFormed_of_ofValue h
  | ofParts h => exact wellFormed_of_ofParts h
  | build calls hlines =>
    have hsound := Draft.sound_empty.performAll hlines
    rw [Builder.performAll_draft] at hsound
    rw [← Builder.build_draft]
    exact hsound.build
  | compose _ _ ihincoming ihstage => exact wellFormed_composeWith {} ihincoming ihstage
  | composeWith options _ _ ihincoming ihstage =>
    exact wellFormed_composeWith options ihincoming ihstage
  | composeOptional options path _ _ ihincoming ihstage =>
    exact ihstage.composeOptional ihincoming options path
  | relabel path _ ih => exact ih.relabel path
  | withoutContents _ ih => exact ih.withoutContents

/-- The maps that there is a way to are the well-formed ones. -/
theorem obtainable_iff_wellFormed : Obtainable m ↔ m.WellFormed :=
  ⟨Obtainable.wellFormed, fun h ↦ .ofParts h.ofParts_toParts⟩

end SourceMap

end SourceChain
