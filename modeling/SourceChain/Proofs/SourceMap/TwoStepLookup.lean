import SourceChain.Proofs.SourceMap.Composition

/-!
# Looking a position up in a composition

A debugger that has the composed map makes one lookup; one that has the two maps makes a lookup in
the stage map and another, at the intermediate position, in the incoming map (`throughBoth?`). The
two agree once the stage segments without a place in the composition are passed over: what decides
is the last stage segment that survives (`survivor?`).

Contents are shared by path in a composition, so the incoming map must not resolve two of its
sources to one path. The name agrees as long as 32 bits number all names of the composition; source,
position and content do not depend on that.
-/

namespace SourceChain.SourceMap

open Mappings (covering? covering?_eq_some)

/-- The last stage segment with a place in the composition that lies on the line of a position and
not past its column. -/
def survivor? (incoming stage : SourceMap) (p : Position) : Option Segment :=
  covering? (stage.segments.filter (survives incoming)) p

/-- The two lookups done by hand: where the incoming map has an intermediate position, with the
distance into the segment there added to the column. The name falls back to that of the stage. -/
def throughBoth? (incoming stage : SourceMap) (via : Origin) : Option SourceLocation :=
  (incoming.lookup via.position).bind fun covering ↦
    (incoming.sourceLocation? via.position).map fun location ↦
      { location with
        position := ⟨location.position.line,
          location.position.column + (via.position.column - covering.generated.column)⟩
        name := location.name.or (via.name.bind stage.name?) }

variable {incoming stage : SourceMap} {file : Option String} {links : List Link} {l : Link}
  {s : Segment} {p : Position}

/-! ### Lookups in a map of links -/

/-- The last link on the line of a position and not past its column. -/
def Link.covering? (links : List Link) (p : Position) : Option Link :=
  (links.filter fun l ↦ l.generated.line = p.line ∧ l.generated.column ≤ p.column).getLast?

theorem lookup_ofLinks (hsorted : links.Pairwise fun a b ↦ a.generated ≤ b.generated)
    (hline : ∀ l ∈ links, l.generated.line ≠ 0) (p : Position) :
    (ofLinks file links).lookup p =
      (Link.covering? links p).map (Link.segment (Link.paths links) (Link.names links)) := by
  have hsegments : ∀ s ∈ links.map (Link.segment (Link.paths links) (Link.names links)),
      s.generated.line ≠ 0 := by
    intro s hs
    obtain ⟨l, hl, rfl⟩ := List.mem_map.1 hs
    exact hline l hl
  show (Mappings.ofSorted _).find? p = _
  rw [Mappings.find?_ofSorted_of_line_ne_zero (List.pairwise_map.2 hsorted) hsegments,
    Mappings.covering?, List.filter_map, List.getLast?_map]
  rfl

/-- A link is described by its own path and position, and by the text that its path has in the
map. -/
theorem describe?_ofLinks {location : SourceLocation} (hl : l ∈ links)
    (hlocation : l.location = some location)
    (hpaths : (Link.paths links).eraseDups.length ≤ UInt32.size) :
    (ofLinks file links).describe? ⟨place (Link.paths links) location.source, location.position,
        location.name.map (place (Link.names links))⟩ =
      some { location with
        name := (location.name.map (place (Link.names links))).bind (ofLinks file links).name?
        content := Link.content? links location.source } := by
  have hmem := Link.mem_paths hl hlocation
  rw [describe?, resolvedSource?_ofLinks hmem hpaths, content?_ofLinks hmem hpaths, Option.map_some]

/-- A path has the text of a link to it, if all links to it come with that text. -/
theorem Link.content?_eq {location : SourceLocation} (hl : l ∈ links)
    (hlocation : l.location = some location)
    (hsame : ∀ k ∈ links, ∀ other, k.location = some other → other.source = location.source →
      other.content = location.content) :
    Link.content? links location.source = location.content := by
  set texts := links.filterMap fun k ↦
    (k.location.filter (·.source = location.source)).bind (·.content) with htexts
  have hall : ∀ text ∈ texts, location.content = some text := by
    intro text htext
    obtain ⟨k, hk, hbind⟩ := List.mem_filterMap.1 htext
    obtain ⟨other, hother, hcontent⟩ := Option.bind_eq_some_iff.1 hbind
    obtain ⟨hother, hsource⟩ := Option.filter_eq_some_iff.1 hother
    rw [← hsame k hk other hother (of_decide_eq_true hsource), hcontent]
  show texts.getLast? = location.content
  rcases hcontent : location.content with - | text
  · refine List.getLast?_eq_none_iff.2 (List.eq_nil_iff_forall_not_mem.2 fun text htext ↦ ?_)
    exact Option.some_ne_none text ((hall text htext).symm.trans hcontent)
  · have hmem : text ∈ texts :=
      List.mem_filterMap.2 ⟨l, hl, by simp [hlocation, Option.filter, hcontent]⟩
    have hne : texts ≠ [] := List.ne_nil_of_mem hmem
    rw [List.getLast?_eq_some_getLast hne, ← hcontent, hall _ (List.getLast_mem hne)]

/-! ### The links of a composition -/

/-- The link that decides is the one of the stage segment that decides. -/
theorem covering?_composedLinks (h : incoming.WellFormed) (options : ComposeOptions) (p : Position) :
    Link.covering? (composedLinks options incoming stage) p =
      (survivor? incoming stage p).bind (link? options incoming stage) := by
  rw [Link.covering?, composedLinks, survivor?, Mappings.covering?]
  generalize stage.segments = segments
  -- from the last segment back: it decides if it covers the position and has a link, and otherwise it
  -- is passed over on both sides
  induction segments using List.reverseRecOn with
  | nil => rfl
  | append_singleton segments s ih =>
    rw [List.filterMap_append, List.filter_append, List.filter_append, List.filter_append]
    rcases hlink : link? options incoming stage s with - | l
    · have hdrop : survives incoming s = false := by
        rw [← isSome_link? options h stage, hlink]
        rfl
      simpa [hlink, hdrop] using ih
    · have hkeep : survives incoming s = true := by
        rw [← isSome_link? options h stage, hlink]
        rfl
      have hgenerated := generated_of_link? hlink
      by_cases hcovers : s.generated.line = p.line ∧ s.generated.column ≤ p.column
      · simp [hlink, hkeep, hgenerated, hcovers]
      · simpa [hlink, hkeep, hgenerated, hcovers] using ih

/-- A link leads where the two lookups by hand do. -/
theorem location_of_link? (h : incoming.WellFormed) (hl : link? {} incoming stage s = some l) :
    l.location = s.origin.bind (throughBoth? incoming stage) := by
  rw [link?] at hl
  rcases horigin : s.origin with - | via
  · simp only [horigin] at hl
    exact (Option.some.inj hl) ▸ rfl
  · simp only [horigin] at hl
    obtain ⟨carried, hcarried, hbind⟩ := Option.bind_eq_some_iff.1 hl
    obtain ⟨location, hdescribe, rfl⟩ := Option.map_eq_some_iff.1 hbind
    rw [← resolveOrigin?_eq_carry? h, resolveOrigin?] at hcarried
    rw [Option.bind_some, throughBoth?, sourceLocation?]
    rcases hlookup : incoming.lookup via.position with - | covering
    · simp [hlookup] at hcarried
    · rcases hstart : covering.origin with - | start
      · simp [hlookup, hstart] at hcarried
      · simp only [hlookup, hstart] at hcarried
        split at hcarried
        next =>
          obtain rfl := Option.some.inj hcarried
          obtain ⟨path, hpath, rfl⟩ := Option.map_eq_some_iff.1 hdescribe
          simp only [Option.bind_some, hstart, describe?] at hpath ⊢
          rw [hpath]
          rfl
        next => cases hcarried

/-- If no two sources resolve to one path, then a path says what text it has. -/
theorem content_eq_of_describe? {origin origin' : Origin} {location location' : SourceLocation}
    (hdistinct : (incoming.sources.toList.map fun source ↦ incoming.resolve source.path).Nodup)
    (h : incoming.describe? origin = some location)
    (h' : incoming.describe? origin' = some location')
    (hsource : location.source = location'.source) : location.content = location'.content := by
  obtain ⟨path, hpath, rfl⟩ := Option.map_eq_some_iff.1 h
  obtain ⟨path', hpath', rfl⟩ := Option.map_eq_some_iff.1 h'
  obtain rfl : path = path' := hsource
  have hresolved : ∀ {index : UInt32}, incoming.resolvedSource? index = some path →
      (incoming.sources.toList.map fun source ↦ incoming.resolve source.path)[index.toNat]? =
        some path := by
    intro index hindex
    rw [List.getElem?_map, Array.getElem?_toList]
    exact hindex
  have hlt := (List.getElem?_eq_some_iff.1 (hresolved hpath)).1
  have hindex : origin.source.toNat = origin'.source.toNat :=
    (List.getElem?_inj hlt hdistinct).1 ((hresolved hpath).trans (hresolved hpath').symm)
  rw [UInt32.toNat_inj.1 hindex]

/-- A link of a composition comes with the text of a described origin. -/
theorem exists_describe?_of_mem_composedLinks {location : SourceLocation}
    (hl : l ∈ composedLinks {} incoming stage) (hlocation : l.location = some location) :
    ∃ origin described, incoming.describe? origin = some described ∧
      described.source = location.source ∧ described.content = location.content := by
  obtain ⟨s, -, hs⟩ := List.mem_filterMap.1 hl
  obtain ⟨via, origin, described, -, -, hdescribe, rfl⟩ := exists_describe?_of_link? hs hlocation
  exact ⟨origin, described, hdescribe, rfl, rfl⟩

/-- The text of a path is the last that a link gives for it, and all links to a path give the same. -/
theorem content?_composedLinks {location : SourceLocation}
    (hdistinct : (incoming.sources.toList.map fun source ↦ incoming.resolve source.path).Nodup)
    (hl : l ∈ composedLinks {} incoming stage) (hlocation : l.location = some location) :
    Link.content? (composedLinks {} incoming stage) location.source = location.content := by
  refine Link.content?_eq hl hlocation fun k hk other hother hsource ↦ ?_
  obtain ⟨_, _, hdescribe, hpath, htext⟩ := exists_describe?_of_mem_composedLinks hl hlocation
  obtain ⟨_, _, hdescribe', hpath', htext'⟩ := exists_describe?_of_mem_composedLinks hk hother
  rw [← htext, ← htext']
  exact content_eq_of_describe? hdistinct hdescribe' hdescribe
    (hpath'.trans (hsource.trans hpath.symm))

/-! ### One lookup for two -/

/-- A lookup in a composition finds the link that decides; its name is found by number. -/
theorem sourceLocation?_compose (hincoming : incoming.WellFormed)
    (hdistinct : (incoming.sources.toList.map fun source ↦ incoming.resolve source.path).Nodup)
    (hstage : stage.WellFormed) (p : Position) :
    (compose incoming stage).sourceLocation? p =
      (Link.covering? (composedLinks {} incoming stage) p).bind fun l ↦
        l.location.map fun location ↦ { location with
          name := (location.name.map (place (Link.names (composedLinks {} incoming stage)))).bind
            (compose incoming stage).name? } := by
  have hcompose : compose incoming stage = ofLinks stage.file (composedLinks {} incoming stage) :=
    composeWith_eq_ofLinks hincoming hstage
  have hline : ∀ l ∈ composedLinks {} incoming stage, l.generated.line ≠ 0 := by
    intro l hl
    obtain ⟨s, hs, hlink⟩ := List.mem_filterMap.1 hl
    rw [generated_of_link? hlink]
    exact (hstage.valid s hs).line_ne_zero
  rw [sourceLocation?, hcompose, lookup_ofLinks (composedLinks_sorted hstage) hline]
  rcases hl : Link.covering? (composedLinks {} incoming stage) p with - | l
  · rfl
  have hmem : l ∈ composedLinks {} incoming stage :=
    (List.mem_filter.1 (List.mem_of_getLast? hl)).1
  rcases hlocation : l.location with - | location
  · simp [Link.segment, hlocation]
  simp only [Link.segment, hlocation, Option.map_some, Option.bind_some]
  rw [describe?_ofLinks hmem hlocation (length_eraseDups_paths_composedLinks_le _ _ _),
    content?_composedLinks hdistinct hmem hlocation]

/-- A stage segment that covers a position and survives is the one that decides there. -/
theorem survivor?_eq_lookup (hstage : stage.WellFormed) (hlookup : stage.lookup p = some s)
    (hkeep : survives incoming s) : survivor? incoming stage p = some s := by
  rw [hstage.lookup_eq, covering?, List.getLast?_eq_some_iff] at hlookup
  obtain ⟨before, hbefore⟩ := hlookup
  have hfilter : ∀ segments : List Segment,
      (segments.filter (survives incoming)).filter (fun s ↦
        decide (s.generated.line = p.line ∧ s.generated.column ≤ p.column)) =
      (segments.filter fun s ↦
        decide (s.generated.line = p.line ∧ s.generated.column ≤ p.column)).filter
          (survives incoming) := by
    intro segments
    rw [List.filter_filter, List.filter_filter]
    exact List.filter_congr fun s _ ↦ Bool.and_comm _ _
  rw [survivor?, covering?, hfilter, hbefore, List.filter_append,
    List.filter_cons_of_pos hkeep, List.filter_nil, List.getLast?_append]
  rfl

/-- The link that decides leads where the two lookups by hand do from the stage segment that
decides. -/
theorem bind_throughBoth?_survivor? (h : incoming.WellFormed) (p : Position) :
    (survivor? incoming stage p).bind (fun s ↦ s.origin.bind (throughBoth? incoming stage)) =
      (Link.covering? (composedLinks {} incoming stage) p).bind (·.location) := by
  rw [covering?_composedLinks h]
  rcases hs : survivor? incoming stage p with - | s
  · rfl
  · have hkeep : survives incoming s := (List.mem_filter.1 (covering?_eq_some hs).1).2
    rw [← isSome_link? {} h stage] at hkeep
    obtain ⟨l, hl⟩ := Option.isSome_iff_exists.1 hkeep
    rw [Option.bind_some, Option.bind_some, hl, Option.bind_some, location_of_link? h hl]

/-- A lookup in a composition is the two lookups by hand from the last stage segment that survives,
which is the one that covers the position, if that survives. Only the name depends on the numbers of
names: it is that of the two lookups as long as 32 bits number all names. -/
theorem sourceLocation?_compose_eq_throughBoth? (hincoming : incoming.WellFormed)
    (hdistinct : (incoming.sources.toList.map fun source ↦ incoming.resolve source.path).Nodup)
    (hstage : stage.WellFormed) (p : Position) :
    ((compose incoming stage).sourceLocation? p).map
        (fun location ↦ (location.source, location.position, location.content)) =
      ((survivor? incoming stage p).bind fun s ↦ s.origin.bind (throughBoth? incoming stage)).map
        (fun location ↦ (location.source, location.position, location.content)) ∧
    ((compose incoming stage).names.size ≤ UInt32.size →
      (compose incoming stage).sourceLocation? p =
        ((survivor? incoming stage p).bind fun s ↦ s.origin.bind (throughBoth? incoming stage)) ∧
      ∀ s via, stage.lookup p = some s → s.origin = some via →
        (carry? incoming.segments via.position).isSome →
        (compose incoming stage).sourceLocation? p = throughBoth? incoming stage via) := by
  have hlookup := sourceLocation?_compose hincoming hdistinct hstage p
  rw [bind_throughBoth?_survivor? hincoming]
  refine ⟨?_, fun hfit ↦ ?_⟩
  · rw [hlookup]
    rcases Link.covering? (composedLinks {} incoming stage) p with - | l
    · rfl
    · rw [Option.bind_some, Option.bind_some, Option.map_map]
      rfl
  have hnamed : (compose incoming stage).sourceLocation? p =
      (Link.covering? (composedLinks {} incoming stage) p).bind (·.location) := by
    rw [hlookup]
    rcases hl : Link.covering? (composedLinks {} incoming stage) p with - | l
    · rfl
    have hmem : l ∈ composedLinks {} incoming stage :=
      (List.mem_filter.1 (List.mem_of_getLast? hl)).1
    rw [compose, composeWith_eq_ofLinks hincoming hstage] at hfit ⊢
    rcases hlocation : l.location with - | location
    · simp [hlocation]
    · simp [hlocation, bind_name?_ofLinks hmem hlocation hfit]
  refine ⟨hnamed, fun s via hcovers hvia hcarry ↦ ?_⟩
  have hkeep : survives incoming s := by
    rw [survives, hvia]
    exact hcarry
  rw [hnamed, ← bind_throughBoth?_survivor? hincoming, survivor?_eq_lookup hstage hcovers hkeep,
    Option.bind_some, hvia, Option.bind_some]

/-- At column seven the covering segment of the stage leads into generated text and has no place in
the composition, so the segment before it decides. -/
theorem sourceLocation?_compose_sample :
    sampleIncoming.WellFormed ∧
    (sampleIncoming.sources.toList.map fun source ↦ sampleIncoming.resolve source.path).Nodup ∧
    sampleStage.WellFormed ∧ (compose sampleIncoming sampleStage).names.size ≤ UInt32.size ∧
    (compose sampleIncoming sampleStage).sourceLocation? ⟨1, 7⟩ =
      some ⟨"src/b.coffee", ⟨3, 4⟩, some "y", none⟩ := by
  have hincoming : sampleIncoming.WellFormed := by decide
  have hdistinct :
      (sampleIncoming.sources.toList.map fun source ↦ sampleIncoming.resolve source.path).Nodup := by
    decide
  have hstage : sampleStage.WellFormed := by decide
  have hfit : (compose sampleIncoming sampleStage).names.size ≤ UInt32.size :=
    Nat.le_trans (size_names_composeWith_le {} hincoming hstage) (by decide)
  refine ⟨hincoming, hdistinct, hstage, hfit, ?_⟩
  exact ((sourceLocation?_compose_eq_throughBoth? hincoming hdistinct hstage ⟨1, 7⟩).2 hfit).1.trans
    (by decide)

end SourceChain.SourceMap
