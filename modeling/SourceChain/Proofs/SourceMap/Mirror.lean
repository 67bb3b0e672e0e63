import Mathlib.Data.List.Nodup
import Mathlib.Data.List.TakeDrop
import Std.Data.HashMap.Lemmas
import SourceChain.Proofs.SourceMap.Assembly
import SourceChain.Proofs.SourceMap.Draft

/-!
# The caches of a builder

A builder looks the number of a string up in a cache, pushes new strings to a table and to the cache
in two steps, and keeps the texts of its sources in a table of their own. That is right only while
the three stay in step: each cache gives the place of every string of its table and of no other
(`Mirrors`), and there is a slot for the text of every path (`Builder.Mirrored`). A new builder is
in step, and so is a builder after any call (`Builder.Mirrored.perform`), whatever the calls before
it were, and even if there are more strings than 32 bits can number: a number that has wrapped has
wrapped in the cache and in the table alike.

While its caches are in step, a builder goes through the steps of its draft, which has none
(`Builder.Mirrored.draft_perform`). So a run gives back what a run of drafts gives back and leaves
the draft that it leaves (`Builder.performAll_draft`), the map that is built is that of the draft
(`Builder.build_draft`), and a composition can be carried out by drafts (`composeWith_eq_draft`).
-/

namespace SourceChain.SourceMap

/-! ### A cache and its table -/

/-- Whether a cache gives the place of each string in a table, and has no other string. -/
structure Mirrors (cache : Std.HashMap String UInt32) (table : Array String) : Prop where
  /-- No string is in the table twice. -/
  nodup : table.toList.Nodup
  /-- A string has a number in the cache exactly if it is in the table, and the number is its
  place. -/
  getElem?_eq_some_iff : ∀ key number, cache[key]? = some number ↔
    ∃ place, table[place]? = some key ∧ number = UInt32.ofNat place

namespace Mirrors

variable {cache : Std.HashMap String UInt32} {table : Array String} {key : String}

theorem empty : Mirrors {} #[] where
  nodup := List.nodup_nil
  getElem?_eq_some_iff := by simp

/-- A string without a number is not in the table. -/
theorem not_mem (h : Mirrors cache table) (hkey : cache[key]? = none) : key ∉ table := by
  intro hmem
  obtain ⟨place, hplace⟩ := Array.mem_iff_getElem?.1 hmem
  have hnumber := (h.getElem?_eq_some_iff key _).2 ⟨place, hplace, rfl⟩
  rw [hkey] at hnumber
  cases hnumber

/-- Looking a string up gives what a search of the table gives. -/
theorem getElem?_eq (h : Mirrors cache table) (key : String) :
    cache[key]? = (table.findIdx? (· == key)).map UInt32.ofNat := by
  rcases hkey : cache[key]? with - | number
  · have hnone : table.findIdx? (· == key) = none :=
      Array.findIdx?_eq_none_iff.2 fun other hmem ↦ beq_false_of_ne fun heq ↦
        h.not_mem hkey (heq ▸ hmem)
    rw [hnone, Option.map_none]
  · obtain ⟨place, hplace, rfl⟩ := (h.getElem?_eq_some_iff key number).1 hkey
    obtain ⟨hlt, hget⟩ := Array.getElem?_eq_some_iff.1 hplace
    -- no earlier place has the string, since no string is there twice
    have hfind : table.findIdx? (· == key) = some place := by
      refine Array.findIdx?_eq_some_iff_getElem.2
        ⟨hlt, beq_iff_eq.2 hget, fun earlier hearlier ↦ ?_⟩
      simp only [beq_iff_eq]
      intro hsame
      have hplaces := (List.Nodup.getElem_inj_iff h.nodup).1 (hsame.trans hget.symm)
      exact absurd hplaces (Nat.ne_of_lt hearlier)
    rw [hfind, Option.map_some]

/-- A new string goes to the end of the table, and to the cache with the number of that place. -/
theorem insert (h : Mirrors cache table) (hkey : cache[key]? = none) :
    Mirrors (cache.insert key (UInt32.ofNat table.size)) (table.push key) := by
  have hnew := h.not_mem hkey
  refine ⟨?_, fun other number ↦ ?_⟩
  · rw [Array.toList_push, ← List.concat_eq_append]
    exact h.nodup.concat (mt Array.mem_toList_iff.1 hnew)
  · rw [Std.HashMap.getElem?_insert]
    simp only [Array.getElem?_push, beq_iff_eq]
    by_cases hother : key = other
    · subst hother
      rw [if_pos rfl, Option.some.injEq]
      constructor
      · rintro rfl
        exact ⟨table.size, by rw [if_pos rfl], rfl⟩
      · rintro ⟨place, hplace, rfl⟩
        split at hplace
        next hsize => rw [hsize]
        next => exact absurd (Array.mem_of_getElem? hplace) hnew
    · rw [if_neg hother, h.getElem?_eq_some_iff]
      refine exists_congr fun place ↦ and_congr_left fun _ ↦ ?_
      split
      next hsize => simp [hsize, hother]
      next => rfl

end Mirrors

/-! ### Paths and texts side by side -/

section PairSources

variable {paths : List String} {contents : List (Option String)}

/-- A path and its slot at the ends of the two tables are a source at the end. -/
theorem pairSources_concat (h : contents.length = paths.length) (path : String)
    (content : Option String) :
    pairSources (paths ++ [path]) (contents ++ [content]) =
      pairSources paths contents ++ [⟨path, content⟩] := by
  induction paths generalizing contents with
  | nil =>
    obtain rfl := List.eq_nil_of_length_eq_zero h
    rfl
  | cons first paths ih =>
    obtain ⟨slot, contents, rfl⟩ := List.exists_cons_of_length_eq_add_one h
    simp only [List.cons_append, pairSources]
    rw [ih (Nat.succ.inj h)]

/-- Filling the slot at a place embeds the text in the source at that place. -/
theorem pairSources_set (h : contents.length = paths.length) (place : Nat)
    (content : Option String) :
    pairSources paths (contents.set place content) =
      (pairSources paths contents).modify place fun source ↦ { source with content } := by
  induction paths generalizing contents place with
  | nil => rw [pairSources, pairSources, List.modify_nil]
  | cons first paths ih =>
    obtain ⟨slot, contents, rfl⟩ := List.exists_cons_of_length_eq_add_one h
    rcases place with - | place
    · rfl
    · rw [List.set_cons_succ, pairSources, pairSources, List.modify_succ_cons,
        ih (Nat.succ.inj h)]

end PairSources

/-! ### Builders in step -/

namespace Builder

/-- Whether a builder is in step: its caches mirror its tables, and there is a slot for the text of
each path. -/
structure Mirrored (b : Builder) : Prop where
  /-- The cache of the paths mirrors their table. -/
  paths : Mirrors b.pathNumbers b.paths
  /-- The cache of the names mirrors their table. -/
  names : Mirrors b.nameNumbers b.names
  /-- There are as many slots for texts as paths. -/
  contents : b.contents.size = b.paths.size

/-- The builder without its caches. -/
def draft (b : Builder) : Draft where
  file := b.file
  sourceRoot := b.sourceRoot
  sources := (pairSources b.paths.toList b.contents.toList).toArray
  names := b.names
  segments := b.segments

variable {b : Builder}

theorem mirrored_new (file : Option String) : Mirrored { file } where
  paths := .empty
  names := .empty
  contents := rfl

/-- What is built does not depend on the caches. -/
theorem build_draft (b : Builder) : b.draft.build = b.build := by
  have hpair := pairSources_map (pairSources b.paths.toList b.contents.toList)
  rw [map_path_pairSources] at hpair
  simp [Draft.build, Draft.toParts, draft, build, toParts, ofTrusted, ofMappings, hpair]

/-- The parts that a builder in step collects are those of its draft. -/
theorem Mirrored.toParts_draft (h : b.Mirrored) : b.draft.toParts = b.toParts := by
  have hcontents : (pairSources b.paths.toList b.contents.toList).map Source.content =
      b.contents.toList := by
    rw [map_content_pairSources]
    have hle : b.paths.toList.length ≤ b.contents.toList.length := Nat.le_of_eq h.contents.symm
    rw [List.takeD_eq_take _ hle]
    exact List.take_of_length_le (Nat.le_of_eq h.contents)
  simp [Draft.toParts, draft, toParts, hcontents]

/-! ### Each step -/

theorem findIdx?_sources_draft (b : Builder) (path : String) :
    b.draft.sources.findIdx? (·.path == path) = b.paths.findIdx? (· == path) := by
  have hmap := List.findIdx?_map (p := (· == path)) (f := Source.path)
    (l := pairSources b.paths.toList b.contents.toList)
  have hpaths : b.paths.findIdx? (· == path) = b.paths.toList.findIdx? (· == path) := by
    rw [← List.findIdx?_toArray, Array.toArray_toList]
  rw [map_path_pairSources] at hmap
  rw [draft, List.findIdx?_toArray, hpaths, hmap]
  rfl

theorem size_sources_draft (b : Builder) : b.draft.sources.size = b.paths.size := by
  have hlength := congrArg List.length (map_path_pairSources b.paths.toList b.contents.toList)
  rw [List.length_map] at hlength
  exact hlength

/-- Looking a path up, or pushing it to both tables and the cache, is what the draft does with its
one table. -/
theorem Mirrored.draft_addSource (h : b.Mirrored) (path : String) :
    b.draft.addSource path = ((b.addSource path).1, (b.addSource path).2.draft) := by
  rw [Draft.addSource, findIdx?_sources_draft, addSource, h.paths.getElem?_eq]
  rcases b.paths.findIdx? (· == path) with - | place
  · have hsources : pairSources (b.paths.toList ++ [path]) (b.contents.toList ++ [none]) =
        pairSources b.paths.toList b.contents.toList ++ [⟨path, none⟩] :=
      pairSources_concat h.contents path none
    simp only [Option.map_none]
    rw [size_sources_draft]
    simp [draft, hsources]
  · rfl

theorem Mirrored.addSource (h : b.Mirrored) (path : String) : (b.addSource path).2.Mirrored := by
  rw [Builder.addSource]
  split
  next => exact h
  next hnone => exact ⟨h.paths.insert hnone, h.names, by simp [h.contents]⟩

theorem Mirrored.draft_addName (h : b.Mirrored) (name : String) :
    b.draft.addName name = ((b.addName name).1, (b.addName name).2.draft) := by
  have hnames : b.draft.names = b.names := rfl
  rw [Draft.addName, hnames, addName, h.names.getElem?_eq]
  rcases b.names.findIdx? (· == name) with - | place <;> rfl

theorem Mirrored.addName (h : b.Mirrored) (name : String) : (b.addName name).2.Mirrored := by
  rw [Builder.addName]
  split
  next => exact h
  next hnone => exact ⟨h.paths, h.names.insert hnone, h.contents⟩

theorem Mirrored.draft_setContent (h : b.Mirrored) (number : UInt32) (text : String) :
    b.draft.setContent number text = (b.setContent number text).draft := by
  have hsources : pairSources b.paths.toList (b.contents.toList.set number.toNat (some text)) = _ :=
    pairSources_set h.contents number.toNat (some text)
  simp [Draft.setContent, draft, setContent, hsources]

theorem Mirrored.setContent (h : b.Mirrored) (number : UInt32) (text : String) :
    (b.setContent number text).Mirrored :=
  ⟨h.paths, h.names, by simp [Builder.setContent, h.contents]⟩

/-- Segments are neither in the tables nor in the caches. -/
theorem Mirrored.addSegment (h : b.Mirrored) (s : Segment) : (b.addSegment s).Mirrored :=
  ⟨h.paths, h.names, h.contents⟩

theorem Mirrored.addMapping (h : b.Mirrored) (generated : Position) (path : String)
    (position : Position) (name : Option String) :
    (b.addMapping generated path position name).Mirrored := by
  have hsource := h.addSource path
  rw [Builder.addMapping]
  rcases name with - | name
  · exact hsource.addSegment _
  · exact (hsource.addName name).addSegment _

theorem Mirrored.draft_addMapping (h : b.Mirrored) (generated : Position) (path : String)
    (position : Position) (name : Option String) :
    b.draft.addMapping generated path position name =
      (b.addMapping generated path position name).draft := by
  rw [Draft.addMapping, Builder.addMapping, h.draft_addSource]
  rcases name with - | name
  · rfl
  · dsimp only
    rw [(h.addSource path).draft_addName]
    rfl

/-! ### Runs of calls -/

/-- A call keeps a builder in step, whatever it is. -/
theorem Mirrored.perform (h : b.Mirrored) (call : Call) : (b.perform call).2.Mirrored := by
  cases call with
  | map generated path position name => exact h.addMapping generated path position name
  | unmapped generated => exact h.addSegment _
  | source path => exact h.addSource path
  | name name => exact h.addName name
  | content number text => exact h.setContent number text
  | file file => exact ⟨h.paths, h.names, h.contents⟩
  | root root => exact ⟨h.paths, h.names, h.contents⟩

/-- A call to a builder in step gives back what a call to its draft gives back, and leaves the
builder whose draft that call leaves. -/
theorem Mirrored.draft_perform (h : b.Mirrored) (call : Call) :
    b.draft.perform call = ((b.perform call).1, (b.perform call).2.draft) := by
  cases call with
  | map generated path position name =>
    rw [Draft.perform, h.draft_addMapping]
    rfl
  | unmapped generated => rfl
  | source path =>
    rw [Draft.perform, h.draft_addSource]
    rfl
  | name name =>
    rw [Draft.perform, h.draft_addName]
    rfl
  | content number text =>
    rw [Draft.perform, h.draft_setContent]
    rfl
  | file file => rfl
  | root root => rfl

theorem Mirrored.performAll (h : b.Mirrored) (calls : List Call) :
    (b.performAll calls).2.Mirrored := by
  induction calls generalizing b with
  | nil => exact h
  | cons call calls ih => exact ih (h.perform call)

theorem Mirrored.draft_performAll (h : b.Mirrored) (calls : List Call) :
    b.draft.performAll calls = ((b.performAll calls).1, (b.performAll calls).2.draft) := by
  induction calls generalizing b with
  | nil => rfl
  | cons call calls ih =>
    rw [Draft.performAll, h.draft_perform]
    dsimp only
    rw [ih (h.perform call)]
    rfl

/-- A new builder is in step after any calls. -/
theorem mirrored_performAll (calls : List Call) : (({} : Builder).performAll calls).2.Mirrored :=
  (mirrored_new none).performAll calls

/-- Calls to a new builder are calls to a new draft. -/
theorem performAll_draft (calls : List Call) :
    ({} : Draft).performAll calls =
      ((({} : Builder).performAll calls).1, (({} : Builder).performAll calls).2.draft) :=
  (mirrored_new none).draft_performAll calls

/-! ### Compositions -/

variable {incoming stage : SourceMap} {options : ComposeOptions}

theorem Mirrored.embed (h : b.Mirrored) (path : String) (text : Option String) :
    (b.embed path text).Mirrored := by
  rcases text with - | text
  · exact h
  · exact (h.addSource path).setContent _ text

theorem Mirrored.draft_embed (h : b.Mirrored) (path : String) (text : Option String) :
    b.draft.embed path text = (b.embed path text).draft := by
  rcases text with - | text
  · rfl
  · rw [Draft.embed, h.draft_addSource]
    exact (h.addSource path).draft_setContent _ text

theorem Mirrored.addStage (h : b.Mirrored) (s : Segment) :
    (b.addStage incoming stage options s).Mirrored := by
  rw [Builder.addStage]
  split
  next => exact h.addSegment _
  next =>
    split
    next => exact h
    next =>
      split
      next => exact h
      next =>
        dsimp only
        split
        · exact (h.addMapping _ _ _ _).embed _ _
        · exact h.addMapping _ _ _ _

theorem Mirrored.draft_addStage (h : b.Mirrored) (s : Segment) :
    b.draft.addStage incoming stage options s = (b.addStage incoming stage options s).draft := by
  rw [Draft.addStage, Builder.addStage]
  rcases s.origin with - | intermediate
  · rfl
  dsimp only
  rcases resolveOrigin? incoming intermediate.position with - | origin
  · rfl
  dsimp only
  rcases incoming.resolvedSource? origin.source with - | path
  · rfl
  dsimp only
  rw [h.draft_addMapping]
  split
  next => exact (h.addMapping _ _ _ _).draft_embed _ _
  next => rfl

theorem Mirrored.draft_foldl_addStage (h : b.Mirrored) (incoming stage : SourceMap)
    (options : ComposeOptions) (segments : List Segment) :
    segments.foldl (Draft.addStage incoming stage options) b.draft =
      (segments.foldl (Builder.addStage incoming stage options) b).draft := by
  induction segments generalizing b with
  | nil => rfl
  | cons s segments ih =>
    rw [List.foldl_cons, List.foldl_cons, h.draft_addStage]
    exact ih (h.addStage s)

end Builder

/-- A composition can be carried out by a draft. -/
theorem composeWith_eq_draft (options : ComposeOptions) (incoming stage : SourceMap) :
    composeWith options incoming stage =
      (stage.segments.foldl (Draft.addStage incoming stage options)
        { file := stage.file }).build := by
  have hrun := (Builder.mirrored_new stage.file).draft_foldl_addStage incoming stage options
    stage.segments
  rw [composeWith, ← Builder.build_draft, ← hrun]
  rfl

end SourceChain.SourceMap
