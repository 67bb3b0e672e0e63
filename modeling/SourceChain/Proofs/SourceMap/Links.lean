import Mathlib.Data.List.Basic
import Mathlib.Data.List.Induction
import Mathlib.Data.List.Nodup
import SourceChain.Proofs.Mappings.Lookup
import SourceChain.Proofs.SourceMap.Draft

/-!
# Building maps from links

A link is a segment before its strings are numbered: a generated position, and the location that it
leads to. Adding links to a draft one after another numbers their paths and names by first mention,
and the last text that a path comes with is the one that its source embeds. `Draft.foldl_addLink`
says so of a whole run, by way of `Draft.ofMentions`, which is the state that a draft is in after
given mentions.

Numbers have 32 bits. A place beyond them would wrap, and a text would then be embedded in another
source, so the run lemma asks for at most `2 ^ 32` distinct paths. It asks nothing of names, whose
numbers are only written down: `SourceMap.name?_ofLinks` is where they have to fit.
-/

namespace SourceChain.SourceMap

/-! ### First mentions -/

section Mentions

variable {α : Type} [DecidableEq α] {l : List α} {a : α}

/-- Another mention adds to the distinct values only if it is the first of its value. -/
theorem eraseDups_concat (l : List α) (a : α) :
    (l ++ [a]).eraseDups = if a ∈ l then l.eraseDups else l.eraseDups ++ [a] := by
  rw [List.eraseDups_append]
  split
  next h => simp [List.removeAll, h]
  next h => simp [List.removeAll, h, List.eraseDups_cons]

theorem nodup_eraseDups (l : List α) : l.eraseDups.Nodup := by
  induction l using List.reverseRecOn with
  | nil => exact List.nodup_nil
  | append_singleton l a ih =>
    rw [eraseDups_concat]
    split
    next => exact ih
    next h =>
      rw [← List.concat_eq_append]
      exact List.Nodup.concat (mt List.mem_eraseDups.1 h) ih

/-- Later mentions do not move a value. -/
theorem idxOf_eraseDups_append (h : a ∈ l) (more : List α) :
    (l ++ more).eraseDups.idxOf a = l.eraseDups.idxOf a := by
  rw [List.eraseDups_append, List.idxOf_append_of_mem (List.mem_eraseDups.2 h)]

/-- Searching for a value finds its place. -/
theorem findIdx?_beq (l : List α) (a : α) :
    l.findIdx? (· == a) = if a ∈ l then some (l.idxOf a) else none := by
  have hfind : l.findIdx (· == a) = l.idxOf a := rfl
  rw [List.findIdx?_eq_guard_findIdx_lt, hfind, Option.guard]
  simp only [List.idxOf_lt_length_iff, decide_eq_true_eq]

/-- The number of a value: its place among the distinct values in order of first mention. -/
def place (mentions : List α) (a : α) : UInt32 :=
  UInt32.ofNat (mentions.eraseDups.idxOf a)

theorem place_append_of_mem (h : a ∈ l) (more : List α) : place (l ++ more) a = place l a := by
  rw [place, idxOf_eraseDups_append h, place]

/-- A first mention gets the next number. -/
theorem place_concat_of_not_mem (h : a ∉ l) :
    place (l ++ [a]) a = UInt32.ofNat l.eraseDups.length := by
  rw [place, eraseDups_concat, if_neg h, List.idxOf_append_of_notMem (mt List.mem_eraseDups.1 h),
    List.idxOf_cons_self, Nat.add_zero]

/-- A number leads back to its value, if 32 bits hold all numbers. -/
theorem getElem?_place (h : a ∈ l) (hfit : l.eraseDups.length ≤ UInt32.size) :
    l.eraseDups[(place l a).toNat]? = some a := by
  have hlt : l.eraseDups.idxOf a < l.eraseDups.length :=
    List.idxOf_lt_length_iff.2 (List.mem_eraseDups.2 h)
  rw [place, UInt32.toNat_ofNat_of_lt' (Nat.lt_of_lt_of_le hlt hfit), List.getElem?_eq_getElem hlt,
    List.getElem_idxOf hlt]

end Mentions

/-! ### Drafts after given mentions -/

namespace Draft

/-- The draft that has seen the given paths and names, each path with the given content, and holds
the given segments. -/
def ofMentions (file root : Option String) (paths names : List String)
    (content : String → Option String) (segments : List Segment) : Draft where
  file := file
  sourceRoot := root
  sources := (paths.eraseDups.map fun path ↦ ⟨path, content path⟩).toArray
  names := names.eraseDups.toArray
  segments := segments.toArray

variable {file root : Option String} {paths names : List String}
  {content : String → Option String} {segments : List Segment}

/-- Numbering a path is mentioning it. -/
theorem addSource_ofMentions {path : String} (h : path ∉ paths → content path = none) :
    (ofMentions file root paths names content segments).addSource path =
      (place (paths ++ [path]) path,
        ofMentions file root (paths ++ [path]) names content segments) := by
  have hfind : (ofMentions file root paths names content segments).sources.findIdx?
      (·.path == path) = if path ∈ paths then some (paths.eraseDups.idxOf path) else none := by
    rw [ofMentions, List.findIdx?_toArray, List.findIdx?_map]
    show List.findIdx? (· == path) _ = _
    rw [findIdx?_beq]
    simp only [List.mem_eraseDups]
  rw [addSource, hfind]
  by_cases hmem : path ∈ paths
  · simp only [if_pos hmem]
    rw [place_append_of_mem hmem, place, ofMentions, ofMentions, eraseDups_concat, if_pos hmem]
  · simp only [if_neg hmem]
    rw [place_concat_of_not_mem hmem]
    simp [ofMentions, eraseDups_concat, hmem, h hmem]

/-- Numbering a name is mentioning it. -/
theorem addName_ofMentions (name : String) :
    (ofMentions file root paths names content segments).addName name =
      (place (names ++ [name]) name,
        ofMentions file root paths (names ++ [name]) content segments) := by
  have hfind : (ofMentions file root paths names content segments).names.findIdx? (· == name) =
      if name ∈ names then some (names.eraseDups.idxOf name) else none := by
    rw [ofMentions, List.findIdx?_toArray, findIdx?_beq]
    simp only [List.mem_eraseDups]
  rw [addName, hfind]
  by_cases hmem : name ∈ names
  · simp only [if_pos hmem]
    rw [place_append_of_mem hmem, place, ofMentions, ofMentions, eraseDups_concat, if_pos hmem]
  · simp only [if_neg hmem]
    rw [place_concat_of_not_mem hmem]
    simp [ofMentions, eraseDups_concat, hmem]

/-- Mentioning a path again changes nothing. -/
theorem ofMentions_concat_of_mem {path : String} (h : path ∈ paths) :
    ofMentions file root (paths ++ [path]) names content segments =
      ofMentions file root paths names content segments := by
  rw [ofMentions, ofMentions, eraseDups_concat, if_pos h]

/-- Embedding a text by the number of its path replaces the content of that path. -/
theorem setContent_ofMentions {path : String} (hmem : path ∈ paths)
    (hfit : paths.eraseDups.length ≤ UInt32.size) (text : String) :
    (ofMentions file root paths names content segments).setContent (place paths path) text =
      ofMentions file root paths names (Function.update content path (some text)) segments := by
  have hget := getElem?_place hmem hfit
  have hsources : (paths.eraseDups.map fun p ↦ Source.mk p (content p)).modify
      (place paths path).toNat (fun source ↦ { source with content := some text }) =
        paths.eraseDups.map fun p ↦ Source.mk p (Function.update content path (some text) p) := by
    refine List.ext_getElem? fun i ↦ ?_
    rw [List.getElem?_modify, List.getElem?_map, List.getElem?_map]
    rcases hi : paths.eraseDups[i]? with - | p
    · rfl
    · by_cases hplace : (place paths path).toNat = i
      · obtain rfl : path = p := Option.some.inj (hget.symm.trans (hplace ▸ hi))
        simp [hplace]
      · have hne : p ≠ path := by
          rintro rfl
          have hlt := (List.getElem?_eq_some_iff.1 hget).1
          exact hplace ((List.getElem?_inj hlt (nodup_eraseDups paths)).1 (hget.trans hi.symm))
        simp [hplace, Function.update_of_ne hne]
  rw [setContent, ofMentions, ofMentions, List.modify_toArray, hsources]

/-- Embedding what a path comes with, if it comes with a text. -/
theorem embed_ofMentions {path : String} (hmem : path ∈ paths)
    (hfit : paths.eraseDups.length ≤ UInt32.size) (text : Option String) :
    (ofMentions file root paths names content segments).embed path text =
      ofMentions file root paths names
        (fun p ↦ if p = path then text.or (content p) else content p) segments := by
  cases text with
  | none => simp [embed]
  | some text =>
    have hupdate : Function.update content path (some text) =
        fun p ↦ if p = path then (some text).or (content p) else content p := by
      funext p
      simp [Function.update_apply]
    rw [embed, addSource_ofMentions (fun h ↦ absurd hmem h)]
    show (ofMentions file root (paths ++ [path]) names content segments).setContent _ text = _
    rw [place_append_of_mem hmem, ofMentions_concat_of_mem hmem, setContent_ofMentions hmem hfit,
      hupdate]

end Draft

/-! ### Links -/

/-- A segment before its strings are numbered. -/
structure Link where
  /-- The position in the generated buffer. -/
  generated : Position
  /-- Where it leads; nothing for text that was only generated. -/
  location : Option SourceLocation
deriving DecidableEq, Repr

namespace Link

/-- The paths that links mention, in order. -/
def paths (links : List Link) : List String :=
  links.filterMap fun l ↦ l.location.map (·.source)

/-- The names that links mention, in order. -/
def names (links : List Link) : List String :=
  links.filterMap fun l ↦ l.location.bind (·.name)

/-- The last text that links give for a path. -/
def content? (links : List Link) (path : String) : Option String :=
  (links.filterMap fun l ↦
    (l.location.filter (·.source = path)).bind (·.content)).getLast?

/-- The segment of a link, with strings numbered by their first mention. -/
def segment (paths names : List String) (l : Link) : Segment where
  generated := l.generated
  origin := l.location.map fun location ↦
    ⟨place paths location.source, location.position, location.name.map (place names)⟩

variable {links : List Link} {l : Link}

@[simp]
theorem paths_concat (links : List Link) (l : Link) :
    paths (links ++ [l]) = paths links ++ (l.location.map (·.source)).toList := by
  rw [paths, List.filterMap_append]
  cases h : l.location <;> simp [paths, h]

@[simp]
theorem names_concat (links : List Link) (l : Link) :
    names (links ++ [l]) = names links ++ (l.location.bind (·.name)).toList := by
  rw [names, List.filterMap_append]
  cases h : l.location.bind (·.name) <;> simp [names, h]

theorem content?_concat (links : List Link) (l : Link) (path : String) :
    content? (links ++ [l]) path =
      ((l.location.filter (·.source = path)).bind (·.content)).or (content? links path) := by
  rw [content?, List.filterMap_append]
  cases h : (l.location.filter (·.source = path)).bind (·.content) <;> simp [content?, h]

theorem mem_paths {location : SourceLocation} (hl : l ∈ links) (h : l.location = some location) :
    location.source ∈ paths links :=
  List.mem_filterMap.2 ⟨l, hl, by simp [h]⟩

theorem mem_names {location : SourceLocation} {name : String} (hl : l ∈ links)
    (h : l.location = some location) (hname : location.name = some name) : name ∈ names links :=
  List.mem_filterMap.2 ⟨l, hl, by simp [h, hname]⟩

/-- A path that no link mentions comes with no text. -/
theorem content?_eq_none {path : String} (h : path ∉ paths links) : content? links path = none := by
  have hnil : (links.filterMap fun l ↦
      (l.location.filter (·.source = path)).bind (·.content)) = [] := by
    refine List.filterMap_eq_nil_iff.2 fun l hl ↦ ?_
    rcases hlocation : l.location with - | location
    · rfl
    · have hne : location.source ≠ path := by
        rintro rfl
        exact h (mem_paths hl hlocation)
      simp [hne]
  rw [content?, hnil]
  rfl

/-- Later mentions do not renumber a link whose strings have been mentioned. -/
theorem segment_append_of_mem {paths names : List String}
    (hpath : ∀ location ∈ l.location, location.source ∈ paths)
    (hname : ∀ location ∈ l.location, ∀ name ∈ location.name, name ∈ names)
    (morePaths moreNames : List String) :
    segment (paths ++ morePaths) (names ++ moreNames) l = segment paths names l := by
  rcases hlocation : l.location with - | location
  · simp [segment, hlocation]
  · have hplace := place_append_of_mem (hpath location hlocation) morePaths
    have hplaces : location.name.map (place (names ++ moreNames)) =
        location.name.map (place names) := by
      refine Option.map_congr fun name hmem ↦ ?_
      exact place_append_of_mem (hname location hlocation name hmem) moreNames
    simp [segment, hlocation, hplace, hplaces]

/-- Later mentions do not renumber a link. -/
theorem segment_append (hl : l ∈ links) (morePaths moreNames : List String) :
    segment (paths links ++ morePaths) (names links ++ moreNames) l =
      segment (paths links) (names links) l :=
  segment_append_of_mem (fun _ h ↦ mem_paths hl h) (fun _ h _ hname ↦ mem_names hl h hname) _ _

end Link

/-! ### Runs of a draft -/

/-- Adds what a link leads to, and embeds the text that it comes with. -/
def Draft.addLink (b : Draft) (l : Link) : Draft :=
  match l.location with
  | none => b.addUnmapped l.generated
  | some location =>
    (b.addMapping l.generated location.source location.position location.name).embed
      location.source location.content

/-- The draft that links have been added to. -/
def Draft.ofLinks (file : Option String) (links : List Link) : Draft :=
  .ofMentions file none (Link.paths links) (Link.names links) (Link.content? links)
    (links.map (Link.segment (Link.paths links) (Link.names links)))

/-- Adding a segment with an origin mentions its path, and its name if there is one. -/
theorem Draft.addMapping_ofMentions {file root : Option String} {paths names : List String}
    {content : String → Option String} {segments : List Segment} {path : String}
    (h : path ∉ paths → content path = none) (generated position : Position)
    (name : Option String) :
    (ofMentions file root paths names content segments).addMapping generated path position name =
      ofMentions file root (paths ++ [path]) (names ++ name.toList) content
        (segments ++ [⟨generated, some ⟨place (paths ++ [path]) path, position,
          name.map (place (names ++ name.toList))⟩⟩]) := by
  rw [addMapping, addSource_ofMentions h]
  cases name with
  | none => simp [addSegment, ofMentions]
  | some name =>
    dsimp only
    rw [addName_ofMentions]
    simp [addSegment, ofMentions]

/-- One more link is one more step of the draft. -/
theorem Draft.addLink_ofLinks {file : Option String} {links : List Link} {l : Link}
    (hfit : (Link.paths (links ++ [l])).eraseDups.length ≤ UInt32.size) :
    (ofLinks file links).addLink l = ofLinks file (links ++ [l]) := by
  -- the new link renumbers nothing, so the segments so far stay as they are
  have hsegments : links.map (Link.segment (Link.paths (links ++ [l])) (Link.names (links ++ [l]))) =
      links.map (Link.segment (Link.paths links) (Link.names links)) := by
    refine List.map_congr_left fun k hk ↦ ?_
    rw [Link.paths_concat, Link.names_concat, Link.segment_append hk]
  have hcontent : Link.content? (links ++ [l]) = fun path ↦
      ((l.location.filter (·.source = path)).bind (·.content)).or (Link.content? links path) :=
    funext fun path ↦ Link.content?_concat links l path
  rw [ofLinks, ofLinks, List.map_append, hsegments, hcontent]
  rw [Link.paths_concat] at hfit ⊢
  rw [Link.names_concat]
  unfold addLink
  rcases hlocation : l.location with - | location
  · simp [addUnmapped, addSegment, ofMentions, Link.segment, hlocation]
  · simp only [hlocation, Option.map_some, Option.toList_some] at hfit
    have hmem : location.source ∈ Link.paths links ++ [location.source] := by simp
    -- embedding and looking for the last text choose alike: the new text for its path, if there is one
    have hchoose : (fun path ↦ if path = location.source
        then location.content.or (Link.content? links path) else Link.content? links path) =
          fun path ↦ ((Option.filter (·.source = path) (some location)).bind (·.content)).or
            (Link.content? links path) := by
      funext path
      by_cases hpath : path = location.source
      · simp [Option.filter, hpath]
      · simp [Option.filter, hpath, Ne.symm hpath]
    dsimp only
    rw [addMapping_ofMentions Link.content?_eq_none, embed_ofMentions hmem hfit, hchoose]
    simp [Link.segment, hlocation]

/-- Adding links in turn to a new draft numbers their strings by first mention. -/
theorem Draft.foldl_addLink {file : Option String} {links : List Link}
    (hfit : (Link.paths links).eraseDups.length ≤ UInt32.size) :
    links.foldl addLink { file } = ofLinks file links := by
  induction links using List.reverseRecOn with
  | nil => rfl
  | append_singleton links l ih =>
    have hfit' : (Link.paths links).eraseDups.length ≤ UInt32.size := by
      refine Nat.le_trans ?_ hfit
      rw [Link.paths_concat, List.eraseDups_append, List.length_append]
      exact Nat.le_add_right _ _
    rw [List.foldl_append, ih hfit', List.foldl_cons, List.foldl_nil, addLink_ofLinks hfit]

/-! ### Maps of links -/

/-- The map of links: their paths and names in order of first mention, each path with the last text
that it comes with, and their segments in the order of the links. -/
def ofLinks (file : Option String) (links : List Link) : SourceMap :=
  ofTrusted {
    file
    paths := (Link.paths links).eraseDups
    contents := (Link.paths links).eraseDups.map (Link.content? links)
    names := (Link.names links).eraseDups
    segments := links.map (Link.segment (Link.paths links) (Link.names links)) }

variable {file : Option String} {links : List Link}

@[simp]
theorem segments_ofLinks : (ofLinks file links).segments =
    links.map (Link.segment (Link.paths links) (Link.names links)) :=
  rfl

theorem sources_ofLinks : (ofLinks file links).sources =
    ((Link.paths links).eraseDups.map fun path ↦ ⟨path, Link.content? links path⟩).toArray := by
  have hpair := pairSources_map
    ((Link.paths links).eraseDups.map fun path ↦ Source.mk path (Link.content? links path))
  simp only [List.map_map, Function.comp_def, List.map_id'] at hpair
  rw [ofLinks, ofTrusted, ofMappings, hpair]

/-- Links in order of generated position need no sorting. -/
theorem build_ofLinks (hsorted : links.Pairwise fun a b ↦ a.generated ≤ b.generated) :
    (Draft.ofLinks file links).build = ofLinks file links := by
  have hsegments : Builder.sortSegments
      (links.map (Link.segment (Link.paths links) (Link.names links))) =
        links.map (Link.segment (Link.paths links) (Link.names links)) := by
    refine List.mergeSort_of_pairwise (List.pairwise_map.2 (hsorted.imp fun h ↦ ?_))
    exact decide_eq_true h
  rw [Draft.build, Draft.ofLinks, Draft.ofMentions, Draft.toParts, ofLinks]
  simp [hsegments, Function.comp_def]

/-- A numbered path leads back to its source, if 32 bits hold all numbers. -/
theorem getElem?_sources_ofLinks {path : String} (h : path ∈ Link.paths links)
    (hfit : (Link.paths links).eraseDups.length ≤ UInt32.size) :
    (ofLinks file links).sources[(place (Link.paths links) path).toNat]? =
      some ⟨path, Link.content? links path⟩ := by
  rw [sources_ofLinks, List.getElem?_toArray, List.getElem?_map, getElem?_place h hfit,
    Option.map_some]

theorem resolvedSource?_ofLinks {path : String} (h : path ∈ Link.paths links)
    (hfit : (Link.paths links).eraseDups.length ≤ UInt32.size) :
    (ofLinks file links).resolvedSource? (place (Link.paths links) path) = some path := by
  rw [resolvedSource?, getElem?_sources_ofLinks h hfit, Option.map_some]
  rfl

theorem content?_ofLinks {path : String} (h : path ∈ Link.paths links)
    (hfit : (Link.paths links).eraseDups.length ≤ UInt32.size) :
    (ofLinks file links).content? (place (Link.paths links) path) = Link.content? links path := by
  rw [content?, getElem?_sources_ofLinks h hfit, Option.bind_some]

/-- A numbered name leads back to itself, if 32 bits hold all numbers. -/
theorem name?_ofLinks {name : String} (h : name ∈ Link.names links)
    (hfit : (ofLinks file links).names.size ≤ UInt32.size) :
    (ofLinks file links).name? (place (Link.names links) name) = some name := by
  have hget := getElem?_place h (by simpa [ofLinks, ofTrusted, ofMappings] using hfit)
  simpa [name?, ofLinks, ofTrusted, ofMappings] using hget

/-- The name of a link is found by its number, if 32 bits hold all numbers. -/
theorem bind_name?_ofLinks {l : Link} {location : SourceLocation} (hl : l ∈ links)
    (hlocation : l.location = some location)
    (hfit : (ofLinks file links).names.size ≤ UInt32.size) :
    (location.name.map (place (Link.names links))).bind (ofLinks file links).name? =
      location.name := by
  rcases hname : location.name with - | name
  · rfl
  · rw [Option.map_some, Option.bind_some,
      name?_ofLinks (Link.mem_names hl hlocation hname) hfit]

/-- Resolving the segments of a map of links gives back the paths and positions of the links. -/
theorem resolvedSegments_ofLinks (hfit : (Link.paths links).eraseDups.length ≤ UInt32.size) :
    (ofLinks file links).resolvedSegments =
      links.map fun l ↦ (l.generated, l.location.map fun location ↦
        (location.source, location.position)) := by
  rw [resolvedSegments, segments_ofLinks, List.map_map]
  refine List.map_congr_left fun l hl ↦ ?_
  rcases hlocation : l.location with - | location
  · simp [Link.segment, hlocation]
  · simp [Link.segment, hlocation, resolvedSource?_ofLinks (Link.mem_paths hl hlocation) hfit]

/-- The names of the segments of a map of links are those of the links. -/
theorem map_name?_segments_ofLinks (hfit : (ofLinks file links).names.size ≤ UInt32.size) :
    ((ofLinks file links).segments.map fun s ↦
        s.origin.bind fun origin ↦ origin.name.bind (ofLinks file links).name?) =
      links.map fun l ↦ l.location.bind (·.name) := by
  rw [segments_ofLinks, List.map_map]
  refine List.map_congr_left fun l hl ↦ ?_
  rcases hlocation : l.location with - | location
  · simp [Link.segment, hlocation]
  · simpa [Link.segment, hlocation] using bind_name?_ofLinks hl hlocation hfit

end SourceChain.SourceMap
