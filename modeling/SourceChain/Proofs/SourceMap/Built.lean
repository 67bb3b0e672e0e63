import SourceChain.Proofs.SourceMap.Histories

/-!
# What a builder makes of its calls

After any calls the caches of a builder mirror its tables (`Builder.Mirrored`), so it gives back and
builds what the draft does that searches its tables instead. What a draft makes of its calls can be
read off the calls.

`Built` says what they come to, in what they gave back and in the map that is built. A number that
was given back stays the place of its string, whatever is called later. The segments are the links
that were added, sorted, and each of them leads to the strings that it was added with (`Spells`). A
lookup gives the segment that was added last among those furthest behind (`Link.Latest`). The checks
of assembly pass the collected parts exactly if all positions are on lines from one on, and the map
is then the same, so leaving them out costs nothing but the check of the lines.

The order of calls matters to the numbers, to the texts and to segments at one position, and to
nothing else: two histories that add the same segments, no two of them at one position, build maps
that resolve alike (`build_determined_by_calls`).
-/

namespace SourceChain.SourceMap

open Mappings (Sorted covering?)

/-! ### What is built -/

/-- Whether the numbers of a segment lead to the strings of a link in the tables of a map. -/
inductive Spells (m : SourceMap) : Segment → Link → Prop
  /-- A segment that was only generated leads to none. -/
  | unmapped (generated : Position) : Spells m ⟨generated, none⟩ ⟨generated, none⟩
  /-- A segment with an origin leads to the path, and to the name if there is one. -/
  | mapped (generated : Position) {source : UInt32} {name : Option UInt32}
      {location : SourceLocation}
      (hsource : m.sources[source.toNat]?.map Source.path = some location.source)
      (hname : name.map m.name? = location.name.map some) :
      Spells m ⟨generated, some ⟨source, location.position, name⟩⟩ ⟨generated, some location⟩

/-- A segment leads to the path of its link with the source root in front, and to its position. -/
theorem Spells.resolved {m : SourceMap} {s : Segment} {l : Link} (h : m.Spells s l) :
    (s.generated, s.origin.bind fun origin ↦
        (m.resolvedSource? origin.source).map fun source ↦ (source, origin.position)) =
      (l.generated, l.location.map fun location ↦
        (m.resolve location.source, location.position)) := by
  cases h with
  | unmapped generated => rfl
  | mapped generated hsource hname =>
    obtain ⟨source, hget, hpath⟩ := Option.map_eq_some_iff.1 hsource
    simp [resolvedSource?, hget, hpath]

/-- A segment leads to the name of its link. -/
theorem Spells.name {m : SourceMap} {s : Segment} {l : Link} (h : m.Spells s l) :
    (s.origin.bind fun origin ↦ origin.name.bind m.name?) = l.location.bind (·.name) := by
  cases h with
  | unmapped generated => rfl
  | @mapped generated source name location hsource hname =>
    rcases name with - | index <;> rcases hlocation : location.name with - | identifier
    · simp [hlocation]
    · simp [hlocation] at hname
    · simp [hlocation] at hname
    · simpa [hlocation] using hname

namespace Draft

open Builder (Call Reply sortSegments sortSegments_sorted pathsOf namesOf linksOf numbered Embeds
  FitsNumbers mem_of_mem_linksOf)

variable {calls : List Call} {b : Draft}

/-- A path is given its number among the paths up to it. -/
theorem AfterCalls.reply_source (h : AfterCalls calls b) (path : String) :
    (b.perform (.source path)).1 = .index (place (pathsOf calls ++ [path]) path) := by
  obtain ⟨file, root, content, rfl, hcontent⟩ := h
  show Reply.index (addSource _ path).1 = _
  rw [addSource_ofMentions (content_eq_none hcontent)]

/-- A name is given its number among the names up to it. -/
theorem AfterCalls.reply_name (h : AfterCalls calls b) (name : String) :
    (b.perform (.name name)).1 = .index (place (namesOf calls ++ [name]) name) := by
  obtain ⟨file, root, content, rfl, -⟩ := h
  show Reply.index (addName _ name).1 = _
  rw [addName_ofMentions]

/-- A number that a string is given at its mention is its place among all mentions. -/
theorem toNat_place_of_split {mentions before after : List String} {a : String}
    (hsplit : mentions = before ++ a :: after) (hfit : mentions.eraseDups.length ≤ UInt32.size) :
    (place (before ++ [a]) a).toNat = mentions.eraseDups.idxOf a := by
  have hmem : a ∈ before ++ [a] := by simp
  have hall : mentions = before ++ [a] ++ after := by rw [hsplit, List.append_cons]
  rw [← place_append_of_mem hmem after, ← hall]
  exact toNat_place (hall ▸ List.mem_append_left _ hmem) hfit

theorem AfterCalls.content_iff (h : AfterCalls calls b) {number : Nat} {source : Source}
    (hsource : b.build.sources[number]? = some source) (text : String) :
    source.content = some text ↔ Embeds calls number text := by
  obtain ⟨file, root, content, rfl, hcontent⟩ := h
  rw [sources_build, ofMentions, List.getElem?_toArray, List.getElem?_map,
    Option.map_eq_some_iff] at hsource
  obtain ⟨path, hget, rfl⟩ := hsource
  obtain ⟨hlt, rfl⟩ := List.getElem?_eq_some_iff.1 hget
  show content _ = some text ↔ _
  rw [hcontent, (nodup_eraseDups _).idxOf_getElem _ hlt]

theorem AfterCalls.segments_build (h : AfterCalls calls b) :
    b.build.segments = (Link.sort (linksOf calls)).map (numbered calls) := by
  obtain ⟨file, root, content, rfl, -⟩ := h
  have hsort := List.map_mergeSort (f := numbered calls) (l := linksOf calls)
    (r := fun a c ↦ decide (a.generated ≤ c.generated))
    (s := fun a c ↦ decide (a.generated ≤ c.generated)) fun a _ c _ ↦ rfl
  rw [Draft.segments_build, ofMentions, List.toList_toArray, sortSegments, ← hsort, Link.sort]

theorem AfterCalls.spells (h : AfterCalls calls b) (hfit : FitsNumbers calls) {l : Link}
    (hl : l ∈ linksOf calls) : b.build.Spells (numbered calls l) l := by
  obtain ⟨file, root, content, rfl, -⟩ := h
  have hmem := mem_of_mem_linksOf hl
  obtain ⟨generated, _ | location⟩ := l
  · exact .unmapped generated
  · obtain ⟨hpath, hname⟩ := hmem location rfl
    refine .mapped generated ?_ ?_
    · rw [sources_build, ofMentions, List.getElem?_toArray, List.getElem?_map,
        getElem?_place hpath hfit.paths]
      rfl
    · rcases hlocation : location.name with - | identifier
      · rfl
      · have hget := getElem?_place (hname identifier hlocation) hfit.names
        rw [Option.map_some, Option.map_some, Option.map_some, name?, names_build, ofMentions,
          List.getElem?_toArray, hget]

/-- A lookup in sorted segments is a search of sorted links. -/
theorem AfterCalls.lookup_build (h : AfterCalls calls b) {p : Position} (hp : p.line ≠ 0)
    (s : Segment) : b.build.lookup p = some s ↔
      ∃ l, Link.Latest (linksOf calls) p l ∧ s = numbered calls l := by
  have hsorted : Sorted b.build.segments := sortSegments_sorted _
  have hscan : b.build.lookup p = covering? b.build.segments p :=
    Mappings.find?_ofSorted hsorted hp
  have hcovering : covering? b.build.segments p =
      ((Link.sort (linksOf calls)).filter (·.Covers p)).getLast?.map (numbered calls) := by
    rw [covering?, h.segments_build, List.filter_map, List.getLast?_map]
    rfl
  rw [hscan, hcovering, Option.map_eq_some_iff]
  exact exists_congr fun l ↦ and_congr Link.getLast?_filter_sort_eq_some_iff eq_comm

/-- The segment of a link that a call adds is among those of the draft. -/
theorem AfterCalls.numbered_mem (h : AfterCalls calls b) {call : Call} (hcall : call ∈ calls)
    {l : Link} (hl : call.link? = some l) : numbered calls l ∈ b.build.segments := by
  rw [h.segments_build]
  refine List.mem_map.2 ⟨l, (Link.sort_perm _).mem_iff.2 ?_, rfl⟩
  exact List.mem_filterMap.2 ⟨call, hcall, hl⟩

/-- A map that is well formed was built by calls whose positions count lines from one. -/
theorem AfterCalls.line_ne_zero (h : AfterCalls calls b) (hbuilt : b.build.WellFormed) {call : Call}
    (hcall : call ∈ calls) : ∀ p ∈ call.positions, p.line ≠ 0 := by
  intro p hp
  cases call with
  | map generated path position identifier =>
    have hvalid := hbuilt.valid _ (h.numbered_mem hcall rfl)
    rcases List.mem_cons.1 hp with rfl | hp
    · exact hvalid.line_ne_zero
    · obtain rfl := List.mem_singleton.1 hp
      exact (hvalid.origin _ rfl).line_ne_zero
  | unmapped generated =>
    obtain rfl := List.mem_singleton.1 hp
    exact (hbuilt.valid _ (h.numbered_mem hcall rfl)).line_ne_zero
  | _ => cases hp

theorem toParts_build (b : Draft) :
    b.build.toParts = { b.toParts with segments := sortSegments b.segments.toList } := by
  rw [SourceMap.toParts, sources_build, names_build, Draft.segments_build]
  rfl

end Draft

namespace Builder

variable {calls : List Call} {b : Builder}

/-- What calls come to, in what they gave back and in the builder that they left. -/
structure Built (calls : List Call) (replies : List Reply) (b : Builder) : Prop where
  /-- The paths are the distinct ones in order of first mention. -/
  paths : b.build.sources.toList.map Source.path = (pathsOf calls).eraseDups
  /-- The names are the distinct ones in order of first mention. -/
  names : b.build.names.toList = (namesOf calls).eraseDups
  /-- What was given back for a path is its place among all paths, however early it was. -/
  sourceReply : ∀ before path after, calls = before ++ .source path :: after →
    ∃ index, replies[before.length]? = some (.index index) ∧
      index.toNat = (pathsOf calls).eraseDups.idxOf path
  /-- What was given back for a name is its place among all names, however early it was. -/
  nameReply : ∀ before name after, calls = before ++ .name name :: after →
    ∃ index, replies[before.length]? = some (.index index) ∧
      index.toNat = (namesOf calls).eraseDups.idxOf name
  /-- A source embeds the last text that was set for its number once it was there. -/
  content : ∀ number source, b.build.sources[number]? = some source →
    ∀ text, source.content = some text ↔ Embeds calls number text
  /-- The segments are those of the links that were added, sorted stably by position. -/
  segments : b.build.segments = (Link.sort (linksOf calls)).map (numbered calls)
  /-- Each segment leads to the strings that it was added with. -/
  spells : ∀ l ∈ linksOf calls, b.build.Spells (numbered calls l) l
  /-- A lookup gives the segment that was added last among those furthest behind. -/
  lookup : ∀ p s, p.line ≠ 0 →
    (b.build.lookup p = some s ↔ ∃ l, Link.Latest (linksOf calls) p l ∧ s = numbered calls l)
  /-- The parts that were collected pass the checks, and make the same map, exactly if all positions
  that were added are on lines from one on. -/
  checked : ofParts { b.toParts with segments := sortSegments b.segments.toList } = .ok b.build ↔
    ∀ call ∈ calls, ∀ p ∈ call.positions, p.line ≠ 0

/-- What a new builder makes of calls. -/
theorem built_performAll (hfit : FitsNumbers calls) :
    Built calls (({} : Builder).performAll calls).1 (({} : Builder).performAll calls).2 := by
  have hafter := Draft.afterCalls_performAll hfit
  have hsound : (∀ call ∈ calls, ∀ p ∈ call.positions, p.line ≠ 0) →
      (({} : Draft).performAll calls).2.Sound := Draft.sound_empty.performAll
  have hparts := (mirrored_performAll calls).toParts_draft
  -- the draft that the builder is without its caches has been through the same calls
  have hreplies := congrArg Prod.fst (performAll_draft calls)
  have hdraft := congrArg Prod.snd (performAll_draft calls)
  dsimp only at hreplies hdraft
  rw [hdraft] at hafter hsound
  rw [← hreplies]
  generalize (({} : Builder).performAll calls).2 = b at hafter hsound hparts
  have hbuild := build_draft b
  refine
    { paths := ?_, names := ?_, sourceReply := ?_, nameReply := ?_, content := ?_,
      segments := ?_, spells := ?_, lookup := ?_, checked := ?_ }
  · obtain ⟨file, root, content, heq, -⟩ := hafter
    rw [← hbuild, Draft.sources_build, heq]
    simp [Draft.ofMentions, Function.comp_def]
  · obtain ⟨file, root, content, heq, -⟩ := hafter
    rw [← hbuild, Draft.names_build, heq]
    rfl
  · rintro before path after rfl
    have hbefore := Draft.afterCalls_performAll hfit.of_append
    have hreply := congrArg some (hbefore.reply_source path)
    refine ⟨_, (Draft.getElem?_performAll before _ after).trans hreply, ?_⟩
    exact Draft.toNat_place_of_split (pathsOf_append before _) hfit.paths
  · rintro before name after rfl
    have hbefore := Draft.afterCalls_performAll hfit.of_append
    have hreply := congrArg some (hbefore.reply_name name)
    refine ⟨_, (Draft.getElem?_performAll before _ after).trans hreply, ?_⟩
    exact Draft.toNat_place_of_split (namesOf_append before _) hfit.names
  · rw [← hbuild]
    exact fun number source ↦ hafter.content_iff
  · rw [← hbuild]
    exact hafter.segments_build
  · rw [← hbuild]
    exact fun l ↦ hafter.spells hfit
  · rw [← hbuild]
    exact fun p s hp ↦ hafter.lookup_build hp s
  · have hcollected : { b.toParts with segments := sortSegments b.segments.toList } =
        b.draft.build.toParts := by
      rw [Draft.toParts_build, hparts]
      rfl
    rw [hcollected, ← hbuild, ← wellFormed_iff_ofParts_toParts]
    exact ⟨fun h call hcall ↦ hafter.line_ne_zero h hcall, fun h ↦ (hsound h).build⟩

/-- Resolving the segments that were built gives back the paths and positions of the links. -/
theorem Built.resolvedSegments_eq {replies : List Reply} (h : Built calls replies b) :
    b.build.resolvedSegments = (Link.sort (linksOf calls)).map fun l ↦
      (l.generated, l.location.map fun location ↦
        (b.build.resolve location.source, location.position)) := by
  rw [resolvedSegments, h.segments, List.map_map]
  refine List.map_congr_left fun l hl ↦ ?_
  exact (h.spells l ((Link.sort_perm _).mem_iff.1 hl)).resolved

/-- The names of the segments that were built are those of the links. -/
theorem Built.map_name_eq {replies : List Reply} (h : Built calls replies b) :
    (b.build.segments.map fun s ↦ s.origin.bind fun origin ↦ origin.name.bind b.build.name?) =
      (Link.sort (linksOf calls)).map fun l ↦ l.location.bind (·.name) := by
  rw [h.segments, List.map_map]
  refine List.map_congr_left fun l hl ↦ ?_
  exact (h.spells l ((Link.sort_perm _).mem_iff.1 hl)).name

/-- After any calls the caches of a new builder mirror its tables, and it has given back and builds
what a draft does that searches its tables. If 32 bits number all strings, what it gave back and
what it builds can be read off the calls. Two histories that add the same segments in any order, no
two of them at one position, build maps whose segments resolve alike, if the source root is the
same. -/
theorem build_determined_by_calls :
    (∀ calls, (({} : Builder).performAll calls).2.Mirrored ∧
      ({} : Draft).performAll calls =
        ((({} : Builder).performAll calls).1, (({} : Builder).performAll calls).2.draft) ∧
      (({} : Builder).performAll calls).2.draft.build =
        (({} : Builder).performAll calls).2.build) ∧
    (∀ calls, FitsNumbers calls →
      Built calls (({} : Builder).performAll calls).1 (({} : Builder).performAll calls).2) ∧
    ∀ calls others, FitsNumbers calls → FitsNumbers others →
      (({} : Builder).performAll calls).2.sourceRoot =
        (({} : Builder).performAll others).2.sourceRoot →
      (linksOf calls).Perm (linksOf others) → ((linksOf calls).map Link.generated).Nodup →
      let m := (({} : Builder).performAll calls).2.build
      let m' := (({} : Builder).performAll others).2.build
      m.resolvedSegments = m'.resolvedSegments ∧
        (m.segments.map fun s ↦ s.origin.bind fun origin ↦ origin.name.bind m.name?) =
          m'.segments.map fun s ↦ s.origin.bind fun origin ↦ origin.name.bind m'.name? := by
  refine ⟨fun calls ↦ ⟨mirrored_performAll calls, performAll_draft calls, build_draft _⟩,
    fun calls ↦ built_performAll, ?_⟩
  intro calls others hcalls hothers hroot hperm hdistinct m m'
  have hbuilt := built_performAll hcalls
  have hbuilt' := built_performAll hothers
  have hresolve : m.resolve = m'.resolve := by
    funext path
    have hsame : m.sourceRoot = m'.sourceRoot := hroot
    rw [resolve, resolve, hsame]
  have hsort := Link.sort_eq_of_perm hperm hdistinct
  refine ⟨?_, ?_⟩
  · rw [hbuilt.resolvedSegments_eq, hbuilt'.resolvedSegments_eq, hsort]
    simp only [m, m'] at hresolve
    rw [hresolve]
  · rw [hbuilt.map_name_eq, hbuilt'.map_name_eq, hsort]

/-- Calls that set a text too early, set another twice, and add segments out of order. -/
def sampleCalls : List Call :=
  [.content 0 "early", .map ⟨2, 0⟩ "a" ⟨1, 0⟩ (some "x"), .source "b", .content 1 "old",
    .content 1 "new", .unmapped ⟨1, 3⟩, .map ⟨1, 0⟩ "b" ⟨4, 2⟩ none]

/-- Calls that add the same segments in another order, and mention a name between them. -/
def sampleReordered : List Call :=
  [.map ⟨1, 0⟩ "b" ⟨4, 2⟩ none, .name "y", .map ⟨2, 0⟩ "a" ⟨1, 0⟩ (some "x"), .unmapped ⟨1, 3⟩]

theorem build_sampleCalls :
    Built sampleCalls (({} : Builder).performAll sampleCalls).1
        (({} : Builder).performAll sampleCalls).2 ∧
      (({} : Builder).performAll sampleCalls).2.build.sources =
        #[⟨"a", none⟩, ⟨"b", some "new"⟩] ∧
      (({} : Builder).performAll sampleReordered).2.build.sources = #[⟨"b", none⟩, ⟨"a", none⟩] ∧
      (({} : Builder).performAll sampleCalls).2.build.resolvedSegments =
        (({} : Builder).performAll sampleReordered).2.build.resolvedSegments := by
  have hfits : FitsNumbers sampleCalls := ⟨by decide, by decide⟩
  have hfits' : FitsNumbers sampleReordered := ⟨by decide, by decide⟩
  have hsources (calls : List Call) : (({} : Builder).performAll calls).2.build.sources =
      (({} : Draft).performAll calls).2.sources := by
    rw [← build_draft, Draft.sources_build, performAll_draft]
  have hroot (calls : List Call) : (({} : Builder).performAll calls).2.sourceRoot =
      (({} : Draft).performAll calls).2.sourceRoot := by
    rw [performAll_draft]
    rfl
  have hroots : (({} : Builder).performAll sampleCalls).2.sourceRoot =
      (({} : Builder).performAll sampleReordered).2.sourceRoot := by
    rw [hroot, hroot]
    decide +kernel
  refine ⟨build_determined_by_calls.2.1 _ hfits, ?_, ?_, ?_⟩
  · rw [hsources]
    decide +kernel
  · rw [hsources]
    decide +kernel
  · exact (build_determined_by_calls.2.2 _ _ hfits hfits' hroots (by decide) (by decide)).1

end Builder

end SourceChain.SourceMap
