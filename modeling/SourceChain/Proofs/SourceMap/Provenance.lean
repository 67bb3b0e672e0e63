import SourceChain.Proofs.SourceMap.Obtainable

/-!
# Where a chain of compositions leads

A chain of maps can be composed in many orders, and `Bracketing` is one of them. Whatever the order,
the map that comes out leads from the buffer of the last map to the sources of the first, and what
lies between leaves no trace but names. `LeadsThrough first last m` says so clause by clause:
sources, embedded texts and lines are those of `first`, the file and the generated positions those
of `last`.

The relation is one of ends. It holds of one composition (`leadsThrough_composeWith`), and it is
passed on at both ends (`LeadsThrough.trans`): what leads to the sources of a map that itself leads
to the sources of `first` leads to those, and the same for generated positions on the other side. So
no order of composition is special, and the induction over a bracketing has nothing to do but to put
the two ends together (`Bracketing.leadsThrough`).

A composition has no source root, since the root of the first map is in front of each path already.
The root goes in front at the first composition only, so it is never put there twice.
-/

namespace SourceChain.SourceMap

variable {options : ComposeOptions} {incoming stage : SourceMap}

/-! ### What links mention -/

namespace Link

variable {links : List Link} {path : String}

/-- A path that is mentioned is that of some link. -/
theorem exists_of_mem_paths (h : path ∈ paths links) :
    ∃ l ∈ links, ∃ location, l.location = some location ∧ location.source = path := by
  obtain ⟨l, hl, hmention⟩ := List.mem_filterMap.1 h
  exact ⟨l, hl, Option.map_eq_some_iff.1 hmention⟩

/-- The text of a path is one that some link to it comes with. -/
theorem exists_of_content?_eq_some {text : String} (h : content? links path = some text) :
    ∃ l ∈ links, ∃ location, l.location = some location ∧ location.source = path ∧
      location.content = some text := by
  obtain ⟨l, hl, hmention⟩ := List.mem_filterMap.1 (List.mem_of_getLast? h)
  obtain ⟨location, hfilter, hcontent⟩ := Option.bind_eq_some_iff.1 hmention
  obtain ⟨hlocation, hsource⟩ := Option.filter_eq_some_iff.1 hfilter
  exact ⟨l, hl, location, hlocation, of_decide_eq_true hsource, hcontent⟩

end Link

/-- A source of a map of links is a path that is mentioned, with the text that the links give it. -/
theorem exists_of_mem_sources_ofLinks {file : Option String} {links : List Link} {source : Source}
    (h : source ∈ (ofLinks file links).sources) :
    source.path ∈ Link.paths links ∧ source.content = Link.content? links source.path := by
  rw [sources_ofLinks, List.mem_toArray] at h
  obtain ⟨path, hpath, rfl⟩ := List.mem_map.1 h
  exact ⟨List.mem_eraseDups.1 hpath, rfl⟩

/-- A described origin has the path and the text of a source. -/
theorem exists_source_of_describe? {m : SourceMap} {origin : Origin} {location : SourceLocation}
    (h : m.describe? origin = some location) :
    ∃ source ∈ m.sources, m.resolve source.path = location.source ∧
      source.content = location.content := by
  obtain ⟨path, hpath, rfl⟩ := Option.map_eq_some_iff.1 h
  obtain ⟨source, hsource, rfl⟩ := Option.map_eq_some_iff.1 hpath
  refine ⟨source, Array.mem_of_getElem? hsource, rfl, ?_⟩
  show source.content = m.content? origin.source
  rw [content?, hsource, Option.bind_some]

/-- What a link of a composition leads to goes by the name of a source of the incoming map. Its text
is the one that this source embeds, or absent if contents are not wanted. -/
theorem exists_source_of_mem_composedLinks {l : Link} {location : SourceLocation}
    (hl : l ∈ composedLinks options incoming stage) (hlocation : l.location = some location) :
    ∃ source ∈ incoming.sources, incoming.resolve source.path = location.source ∧
      location.content = if options.sourcesContent then source.content else none := by
  obtain ⟨s, -, hs⟩ := List.mem_filterMap.1 hl
  obtain ⟨via, origin, described, -, -, hdescribe, rfl⟩ := exists_describe?_of_link? hs hlocation
  obtain ⟨source, hmem, hpath, hcontent⟩ := exists_source_of_describe? hdescribe
  exact ⟨source, hmem, hpath, by rw [hcontent]⟩

/-! ### The segments of a composition -/

/-- The segment that a stage segment becomes in a composition, if it becomes one. -/
def become? (options : ComposeOptions) (incoming stage : SourceMap) (s : Segment) :
    Option Segment :=
  (link? options incoming stage s).map
    (Link.segment (Link.paths (composedLinks options incoming stage))
      (Link.names (composedLinks options incoming stage)))

theorem segments_composeWith (options : ComposeOptions) (hincoming : incoming.WellFormed)
    (hstage : stage.WellFormed) :
    (composeWith options incoming stage).segments =
      stage.segments.filterMap (become? options incoming stage) := by
  rw [composeWith_eq_ofLinks hincoming hstage, segments_ofLinks]
  exact List.map_filterMap

/-- A segment that was only generated stays as it is. -/
theorem become?_of_unmapped {s : Segment} (h : s.origin = none) :
    become? options incoming stage s = some s := by
  obtain ⟨generated, origin⟩ := s
  obtain rfl : origin = none := h
  rfl

/-- A segment stays in its place, and stays mapped if it is mapped. -/
theorem generated_of_become? {s t : Segment} (h : become? options incoming stage s = some t) :
    t.generated = s.generated ∧ t.isMapped = s.isMapped := by
  rcases horigin : s.origin with - | via
  · rw [become?_of_unmapped horigin] at h
    obtain rfl := Option.some.inj h
    exact ⟨rfl, rfl⟩
  · obtain ⟨l, hl, rfl⟩ := Option.map_eq_some_iff.1 h
    refine ⟨generated_of_link? hl, ?_⟩
    rw [link?, horigin] at hl
    obtain ⟨origin, -, hbind⟩ := Option.bind_eq_some_iff.1 hl
    obtain ⟨location, -, rfl⟩ := Option.map_eq_some_iff.1 hbind
    rw [Segment.isMapped, Segment.isMapped, horigin]
    rfl

/-- What is kept of a list, as far as keeping shows, is a part of the list. -/
theorem sublist_map_filterMap {α β γ : Type} {f : α → Option β} {shown : β → γ} {shown' : α → γ}
    (h : ∀ a b, f a = some b → shown b = shown' a) (l : List α) :
    ((l.filterMap f).map shown).Sublist (l.map shown') := by
  induction l with
  | nil => exact List.Sublist.refl []
  | cons a l ih =>
    rw [List.filterMap_cons, List.map_cons]
    rcases hf : f a with - | b
    · exact ih.cons _
    · rw [List.map_cons, h a b hf]
      exact ih.cons_cons _

/-! ### From the first map to the last -/

/-- A map leads from the buffer that `last` is for to the sources of `first`. -/
structure LeadsThrough (first last m : SourceMap) : Prop where
  /-- The map is for the buffer that `last` is for. -/
  file : m.file = last.file
  /-- Each source goes by the full name of a source of `first`. -/
  source : ∀ source ∈ m.sources,
    ∃ original ∈ first.sources, first.resolve original.path = m.resolve source.path
  /-- Each embedded text is what `first` embeds for a source of that full name. -/
  content : ∀ source ∈ m.sources, ∀ text, source.content = some text →
    ∃ original ∈ first.sources, first.resolve original.path = m.resolve source.path ∧
      original.content = some text
  /-- The segments are some of the segments of `last`, in order, as far as their generated positions
  and whether they are mapped show. -/
  segments : (m.segments.map fun s ↦ (s.generated, s.isMapped)).Sublist
    (last.segments.map fun s ↦ (s.generated, s.isMapped))
  /-- The segments of `last` that were only generated are all there. -/
  unmapped : m.segments.filter (!·.isMapped) = last.segments.filter (!·.isMapped)
  /-- Each segment leads into the source and to the line that some segment of `first` leads to. -/
  origin : ∀ s ∈ m.segments, ∀ origin, s.origin = some origin →
    ∃ t ∈ first.segments, ∃ start, t.origin = some start ∧
      origin.position.line = start.position.line ∧
      m.resolvedSource? origin.source = first.resolvedSource? start.source

namespace LeadsThrough

variable {first last m : SourceMap}

/-- A map leads to its own sources. -/
theorem refl (m : SourceMap) : LeadsThrough m m m where
  file := rfl
  source source hsource := ⟨source, hsource, rfl⟩
  content source hsource _ htext := ⟨source, hsource, rfl, htext⟩
  segments := List.Sublist.refl _
  unmapped := rfl
  origin s hs origin horigin := ⟨s, hs, origin, horigin, rfl, rfl⟩

/-- Both ends can be passed on. -/
theorem trans (h : LeadsThrough incoming stage m) {first' last' : SourceMap}
    (hincoming : LeadsThrough first last' incoming) (hstage : LeadsThrough first' last stage) :
    LeadsThrough first last m where
  file := h.file.trans hstage.file
  source source hsource := by
    obtain ⟨between, hbetween, hpath⟩ := h.source source hsource
    obtain ⟨original, horiginal, hpath'⟩ := hincoming.source between hbetween
    exact ⟨original, horiginal, hpath'.trans hpath⟩
  content source hsource text htext := by
    obtain ⟨between, hbetween, hpath, hcontent⟩ := h.content source hsource text htext
    obtain ⟨original, horiginal, hpath', hcontent'⟩ :=
      hincoming.content between hbetween text hcontent
    exact ⟨original, horiginal, hpath'.trans hpath, hcontent'⟩
  segments := h.segments.trans hstage.segments
  unmapped := h.unmapped.trans hstage.unmapped
  origin s hs origin horigin := by
    obtain ⟨t, ht, start, hstart, hline, hsource⟩ := h.origin s hs origin horigin
    obtain ⟨t', ht', start', hstart', hline', hsource'⟩ := hincoming.origin t ht start hstart
    exact ⟨t', ht', start', hstart', hline.trans hline', hsource.trans hsource'⟩

/-- The generated positions are some of those of `last`, in order. -/
theorem sublist_generated (h : LeadsThrough first last m) :
    (m.segments.map (·.generated)).Sublist (last.segments.map (·.generated)) := by
  have hpositions := h.segments.map Prod.fst
  rw [List.map_map, List.map_map] at hpositions
  exact hpositions

end LeadsThrough

/-- A composition has no source root. -/
theorem sourceRoot_composeWith (options : ComposeOptions) (hincoming : incoming.WellFormed)
    (hstage : stage.WellFormed) : (composeWith options incoming stage).sourceRoot = none := by
  rw [composeWith_eq_ofLinks hincoming hstage]
  rfl

/-- Without a root, a path is its own full name. -/
theorem resolve_of_sourceRoot_eq_none {m : SourceMap} (h : m.sourceRoot = none) (path : String) :
    m.resolve path = path := by
  rw [resolve, h]

/-- A segment of a composition leads into the source and to the line that some segment of the
incoming map leads to. -/
theorem exists_origin_of_mem_composedLinks (file : Option String) {l : Link}
    {location : SourceLocation} (hl : l ∈ composedLinks options incoming stage)
    (hlocation : l.location = some location) :
    ∃ t ∈ incoming.segments, ∃ start, t.origin = some start ∧
      location.position.line = start.position.line ∧
      (ofLinks file (composedLinks options incoming stage)).resolvedSource?
          (place (Link.paths (composedLinks options incoming stage)) location.source) =
        incoming.resolvedSource? start.source := by
  have hresolved : (ofLinks file (composedLinks options incoming stage)).resolvedSource?
      (place (Link.paths (composedLinks options incoming stage)) location.source) =
        some location.source :=
    resolvedSource?_ofLinks (Link.mem_paths hl hlocation)
      (length_eraseDups_paths_composedLinks_le options incoming stage)
  obtain ⟨s, -, hs⟩ := List.mem_filterMap.1 hl
  obtain ⟨via, origin, described, -, hcarry, hdescribe, rfl⟩ :=
    exists_describe?_of_link? hs hlocation
  obtain ⟨path, hpath, rfl⟩ := Option.map_eq_some_iff.1 hdescribe
  obtain ⟨t, ht, start, hstart, hsource, hline⟩ := exists_of_carry?_eq_some hcarry
  exact ⟨t, ht, start, hstart, hline, by rw [hresolved, ← hsource, hpath]⟩

/-- A composition leads from the buffer of the stage map to the sources of the incoming one. -/
theorem leadsThrough_composeWith (options : ComposeOptions) (hincoming : incoming.WellFormed)
    (hstage : stage.WellFormed) :
    LeadsThrough incoming stage (composeWith options incoming stage) where
  file := by
    rw [composeWith_eq_ofLinks hincoming hstage]
    rfl
  source source hsource := by
    rw [resolve_of_sourceRoot_eq_none (sourceRoot_composeWith options hincoming hstage)]
    rw [composeWith_eq_ofLinks hincoming hstage] at hsource
    obtain ⟨hpath, -⟩ := exists_of_mem_sources_ofLinks hsource
    obtain ⟨l, hl, location, hlocation, hname⟩ := Link.exists_of_mem_paths hpath
    obtain ⟨original, hmem, hresolve, -⟩ := exists_source_of_mem_composedLinks hl hlocation
    exact ⟨original, hmem, hresolve.trans hname⟩
  content source hsource text htext := by
    rw [resolve_of_sourceRoot_eq_none (sourceRoot_composeWith options hincoming hstage)]
    rw [composeWith_eq_ofLinks hincoming hstage] at hsource
    obtain ⟨-, hcontent⟩ := exists_of_mem_sources_ofLinks hsource
    rw [hcontent] at htext
    obtain ⟨l, hl, location, hlocation, hname, hlinked⟩ := Link.exists_of_content?_eq_some htext
    obtain ⟨original, hmem, hresolve, hwanted⟩ := exists_source_of_mem_composedLinks hl hlocation
    rw [hlinked] at hwanted
    exact ⟨original, hmem, hresolve.trans hname, (Option.ite_none_right_eq_some.1 hwanted.symm).2⟩
  segments := by
    rw [segments_composeWith options hincoming hstage]
    refine sublist_map_filterMap (fun s t ht ↦ ?_) stage.segments
    obtain ⟨hgenerated, hmapped⟩ := generated_of_become? ht
    rw [hgenerated, hmapped]
  unmapped := by
    rw [segments_composeWith options hincoming hstage, List.filter_filterMap,
      ← List.filterMap_eq_filter]
    -- one that was only generated stays, and any other is filtered out on both sides
    refine List.filterMap_congr fun s _ ↦ ?_
    rcases horigin : s.origin with - | via
    · rw [become?_of_unmapped horigin]
      rfl
    · have hmapped : s.isMapped = true := by rw [Segment.isMapped, horigin]; rfl
      rw [Option.guard, if_neg (by simp [hmapped]), Option.filter_eq_none_iff]
      intro t ht
      simp [(generated_of_become? ht).2, hmapped]
  origin s hs origin horigin := by
    rw [composeWith_eq_ofLinks hincoming hstage, segments_ofLinks] at hs
    obtain ⟨l, hl, rfl⟩ := List.mem_map.1 hs
    obtain ⟨location, hlocation, rfl⟩ := Option.map_eq_some_iff.1 horigin
    rw [composeWith_eq_ofLinks hincoming hstage]
    exact exists_origin_of_mem_composedLinks stage.file hl hlocation

/-- Every name of a composition is one of its two maps. -/
theorem mem_names_or_of_mem_composeWith (options : ComposeOptions) (hincoming : incoming.WellFormed)
    (hstage : stage.WellFormed) {name : String}
    (h : name ∈ (composeWith options incoming stage).names) :
    name ∈ incoming.names ∨ name ∈ stage.names := by
  rw [composeWith_eq_ofLinks hincoming hstage] at h
  have hmention : name ∈ (Link.names (composedLinks options incoming stage)).eraseDups.toArray := h
  exact mem_names_or_of_mem_composedLinks (List.mem_eraseDups.1 (List.mem_toArray.1 hmention))

/-! ### Chains -/

/-- A way to compose the maps of a chain two at a time. -/
inductive Bracketing where
  /-- A map by itself. -/
  | map (m : SourceMap)
  /-- What the stages before make, composed with what the stages after make. -/
  | compose (before after : Bracketing)

namespace Bracketing

/-- The maps of the chain, from the one that leads to the sources on. -/
def maps : Bracketing → List SourceMap
  | map m => [m]
  | compose before after => before.maps ++ after.maps

/-- The map that the compositions make. -/
def composed : Bracketing → SourceMap
  | map m => m
  | compose before after => SourceMap.compose before.composed after.composed

variable {t : Bracketing}

theorem maps_ne_nil (t : Bracketing) : t.maps ≠ [] := by
  induction t with
  | map m => exact List.cons_ne_nil m []
  | compose before after ihbefore ihafter => exact List.append_ne_nil_of_left_ne_nil ihbefore _

theorem wellFormed_composed (h : ∀ m ∈ t.maps, m.WellFormed) : t.composed.WellFormed := by
  induction t with
  | map m => exact h m List.mem_cons_self
  | compose before after ihbefore ihafter =>
    obtain ⟨hbefore, hafter⟩ := List.forall_mem_append.1 h
    exact wellFormed_composeWith {} (ihbefore hbefore) (ihafter hafter)

/-- In whatever order a chain is composed, the map leads from its last map to its first. -/
theorem leadsThrough (h : ∀ m ∈ t.maps, m.WellFormed) :
    LeadsThrough (t.maps.head t.maps_ne_nil) (t.maps.getLast t.maps_ne_nil) t.composed := by
  induction t with
  | map m => exact .refl m
  | compose before after ihbefore ihafter =>
    obtain ⟨hbefore, hafter⟩ := List.forall_mem_append.1 h
    have hstep : LeadsThrough before.composed after.composed (compose before after).composed :=
      leadsThrough_composeWith {} (wellFormed_composed hbefore) (wellFormed_composed hafter)
    have hends := hstep.trans (ihbefore hbefore) (ihafter hafter)
    rwa [← List.head_append_of_ne_nil before.maps_ne_nil,
      ← List.getLast_append_of_ne_nil _ after.maps_ne_nil] at hends

/-- Every name comes from some map of the chain. -/
theorem exists_mem_names (h : ∀ m ∈ t.maps, m.WellFormed) {name : String}
    (hname : name ∈ t.composed.names) : ∃ m ∈ t.maps, name ∈ m.names := by
  induction t with
  | map m => exact ⟨m, List.mem_cons_self, hname⟩
  | compose before after ihbefore ihafter =>
    obtain ⟨hbefore, hafter⟩ := List.forall_mem_append.1 h
    rcases mem_names_or_of_mem_composeWith {} (wellFormed_composed hbefore)
      (wellFormed_composed hafter) hname with hname | hname
    · obtain ⟨m, hm, hmem⟩ := ihbefore hbefore hname
      exact ⟨m, List.mem_append_left _ hm, hmem⟩
    · obtain ⟨m, hm, hmem⟩ := ihafter hafter hname
      exact ⟨m, List.mem_append_right _ hm, hmem⟩

/-- A chain of two maps or more ends with a composition, which has no source root. -/
theorem sourceRoot_composed (h : ∀ m ∈ t.maps, m.WellFormed) (hlength : 2 ≤ t.maps.length) :
    t.composed.sourceRoot = none := by
  rcases t with m | ⟨before, after⟩
  · exact absurd hlength (Nat.not_succ_le_self 1)
  · obtain ⟨hbefore, hafter⟩ := List.forall_mem_append.1 h
    exact sourceRoot_composeWith {} (wellFormed_composed hbefore) (wellFormed_composed hafter)

end Bracketing

/-- In whatever order a chain of two maps or more is composed, the map leads from the buffer of the
last one to the sources of the first. It has no source root: its paths are those of the first map
with the root of that map in front. The maps between leave nothing but names. -/
theorem composed_leadsThrough {t : Bracketing} {first last : SourceMap} {between : List SourceMap}
    (hchain : t.maps = first :: (between ++ [last])) (hwell : ∀ m ∈ t.maps, m.WellFormed) :
    LeadsThrough first last t.composed ∧ t.composed.sourceRoot = none ∧
      (∀ source ∈ t.composed.sources,
        ∃ original ∈ first.sources, source.path = first.resolve original.path) ∧
      ∀ name ∈ t.composed.names, ∃ m ∈ t.maps, name ∈ m.names := by
  have hlength : 2 ≤ t.maps.length := by
    rw [hchain, List.length_cons, List.length_append]
    exact Nat.succ_le_succ (Nat.le_add_left 1 _)
  have hroot := Bracketing.sourceRoot_composed hwell hlength
  have hends : LeadsThrough first last t.composed := by
    have hleads := Bracketing.leadsThrough hwell
    simp only [hchain, List.head_cons] at hleads
    rwa [List.getLast_cons (List.append_ne_nil_of_right_ne_nil between (List.cons_ne_nil last [])),
      List.getLast_concat] at hleads
  refine ⟨hends, hroot, fun source hsource ↦ ?_, fun name hname ↦
    Bracketing.exists_mem_names hwell hname⟩
  obtain ⟨original, horiginal, hpath⟩ := hends.source source hsource
  rw [resolve_of_sourceRoot_eq_none hroot] at hpath
  exact ⟨original, horiginal, hpath.symm⟩

theorem composed_sample_leadsThrough :
    let t : Bracketing :=
      .compose (.map sampleIncoming) (.compose (.map sampleStage) (.map sampleStage))
    t.maps = [sampleIncoming, sampleStage, sampleStage] ∧ (∀ m ∈ t.maps, m.WellFormed) ∧
      LeadsThrough sampleIncoming sampleStage t.composed ∧ t.composed.sourceRoot = none ∧
      (∀ source ∈ t.composed.sources,
        ∃ original ∈ sampleIncoming.sources, source.path = sampleIncoming.resolve original.path) ∧
      ∀ name ∈ t.composed.names, ∃ m ∈ t.maps, name ∈ m.names := by
  intro t
  have hchain : t.maps = sampleIncoming :: ([sampleStage] ++ [sampleStage]) := rfl
  have hwell : ∀ m ∈ t.maps, m.WellFormed := by
    show ∀ m ∈ [sampleIncoming, sampleStage, sampleStage], m.WellFormed
    decide
  exact ⟨hchain, hwell, composed_leadsThrough hchain hwell⟩

end SourceChain.SourceMap
