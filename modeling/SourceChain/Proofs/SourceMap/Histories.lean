import SourceChain.Proofs.SourceMap.Obtainable
import SourceChain.Proofs.SourceMap.SortedLinks

/-!
# What calls leave in a builder

A builder is a table of paths, a table of names and a list of segments, and calls come in any order.
What they leave can be read off the calls alone. The tables are the distinct strings in order of
first mention (`pathsOf`, `namesOf`). The text that a source embeds is the last one that was set for
its number once the source was there (`Embeds`): a text that comes too early is lost. And the
segments are the links that the calls add (`linksOf`), with their strings numbered.

`Draft.AfterCalls` says so of the draft that is left of a builder without its caches, and one more
call keeps it (`Draft.AfterCalls.perform`). Most calls set no text, and for them there is only one
argument (`Draft.afterCalls_concat`): a string that is new with the call has a number past those that
texts have been set for.

Numbers have 32 bits, so all of this is about at most `2 ^ 32` distinct paths and names
(`FitsNumbers`). A text would otherwise be set for a source whose number has wrapped.
-/

namespace SourceChain.SourceMap

namespace Builder

variable {calls : List Call} {call : Call}

/-! ### What calls say -/

/-- The path that a call mentions. -/
def Call.path? : Call → Option String
  | .map _ path _ _ => some path
  | .source path => some path
  | _ => none

/-- The name that a call mentions. -/
def Call.name? : Call → Option String
  | .map _ _ _ identifier => identifier
  | .name identifier => some identifier
  | _ => none

/-- The link that a call adds. -/
def Call.link? : Call → Option Link
  | .map generated path position identifier =>
    some ⟨generated, some ⟨path, position, identifier, none⟩⟩
  | .unmapped generated => some ⟨generated, none⟩
  | _ => none

/-- The paths that calls mention, in order. -/
def pathsOf (calls : List Call) : List String :=
  calls.filterMap Call.path?

/-- The names that calls mention, in order. -/
def namesOf (calls : List Call) : List String :=
  calls.filterMap Call.name?

/-- The links that calls add, in order. -/
def linksOf (calls : List Call) : List Link :=
  calls.filterMap Call.link?

/-- The segment of a link, with strings numbered by their first mention in calls. -/
def numbered (calls : List Call) (l : Link) : Segment :=
  l.segment (pathsOf calls) (namesOf calls)

/-- Whether calls set a text for the source with a number, once there is a source with that number,
and no later call sets another. -/
def Embeds (calls : List Call) (number : Nat) (text : String) : Prop :=
  ∃ before index after, calls = before ++ .content index text :: after ∧ index.toNat = number ∧
    number < (pathsOf before).eraseDups.length ∧ ∀ other, .content index other ∉ after

/-- Whether 32 bits hold the numbers of all strings that calls mention. -/
structure FitsNumbers (calls : List Call) : Prop where
  /-- There are not too many distinct paths. -/
  paths : (pathsOf calls).eraseDups.length ≤ UInt32.size
  /-- There are not too many distinct names. -/
  names : (namesOf calls).eraseDups.length ≤ UInt32.size

theorem pathsOf_append (calls more : List Call) :
    pathsOf (calls ++ more) = pathsOf calls ++ pathsOf more :=
  List.filterMap_append

theorem namesOf_append (calls more : List Call) :
    namesOf (calls ++ more) = namesOf calls ++ namesOf more :=
  List.filterMap_append

theorem linksOf_append (calls more : List Call) :
    linksOf (calls ++ more) = linksOf calls ++ linksOf more :=
  List.filterMap_append

/-- More mentions are no fewer distinct ones. -/
theorem length_eraseDups_le_append (mentions more : List String) :
    mentions.eraseDups.length ≤ (mentions ++ more).eraseDups.length := by
  rw [List.eraseDups_append, List.length_append]
  exact Nat.le_add_right _ _

theorem FitsNumbers.of_append {more : List Call} (h : FitsNumbers (calls ++ more)) :
    FitsNumbers calls where
  paths := Nat.le_trans (length_eraseDups_le_append _ _) (pathsOf_append calls more ▸ h.paths)
  names := Nat.le_trans (length_eraseDups_le_append _ _) (namesOf_append calls more ▸ h.names)

/-- The strings of a link that calls add are mentioned by them. -/
theorem mem_of_mem_linksOf {l : Link} (h : l ∈ linksOf calls) :
    ∀ location ∈ l.location, location.source ∈ pathsOf calls ∧
      ∀ name ∈ location.name, name ∈ namesOf calls := by
  obtain ⟨call, hcall, hl⟩ := List.mem_filterMap.1 h
  intro location hlocation
  cases call with
  | map generated path position name =>
    obtain rfl := Option.some.inj hl
    obtain rfl := Option.some.inj hlocation
    exact ⟨List.mem_filterMap.2 ⟨_, hcall, rfl⟩,
      fun name hname ↦ List.mem_filterMap.2 ⟨_, hcall, hname⟩⟩
  | unmapped generated =>
    obtain rfl := Option.some.inj hl
    cases hlocation
  | _ => cases hl

/-- Later calls do not renumber a link. -/
theorem numbered_append {l : Link} (h : l ∈ linksOf calls) (more : List Call) :
    numbered (calls ++ more) l = numbered calls l := by
  rw [numbered, pathsOf_append, namesOf_append]
  exact Link.segment_append_of_mem (fun location hl ↦ (mem_of_mem_linksOf h location hl).1)
    (fun location hl ↦ (mem_of_mem_linksOf h location hl).2) _ _

/-- One more call sets the text of a source if it is about that source, and else leaves it. -/
theorem embeds_concat {number : Nat} {text : String} :
    Embeds (calls ++ [call]) number text ↔
      (∃ index, call = .content index text ∧ index.toNat = number ∧
        number < (pathsOf calls).eraseDups.length) ∨
      (∀ index other, call = .content index other → index.toNat ≠ number) ∧
        Embeds calls number text := by
  refine ⟨?_, ?_⟩
  · rintro ⟨before, index, after, hsplit, hindex, hnumber, hafter⟩
    rcases List.eq_nil_or_concat after with rfl | ⟨after, last, rfl⟩
    · obtain ⟨rfl, hlast⟩ := List.append_inj' hsplit rfl
      exact .inl ⟨index, (List.cons.inj hlast).1, hindex, hnumber⟩
    · rw [List.concat_eq_append, ← List.cons_append, ← List.append_assoc] at hsplit
      obtain ⟨rfl, hlast⟩ := List.append_inj' hsplit rfl
      obtain rfl := (List.cons.inj hlast).1
      rw [List.concat_eq_append] at hafter
      refine .inr ⟨?_, before, index, after, rfl, hindex, hnumber,
        fun other hother ↦ hafter other (List.mem_append_left _ hother)⟩
      rintro index' other rfl hindex'
      obtain rfl := UInt32.toNat_inj.1 (hindex'.trans hindex.symm)
      exact hafter other (List.mem_append_right _ List.mem_cons_self)
  · rintro (⟨index, rfl, hindex, hnumber⟩ |
      ⟨hother, before, index, after, rfl, hindex, hnumber, hafter⟩)
    · exact ⟨calls, index, [], rfl, hindex, hnumber, by simp⟩
    · refine ⟨before, index, after ++ [call], by simp, hindex, hnumber, fun other hmem ↦ ?_⟩
      rcases List.mem_append.1 hmem with hmem | hmem
      · exact hafter other hmem
      · exact hother index other (List.mem_singleton.1 hmem).symm hindex

/-- No text is set for a source that there is not yet. -/
theorem Embeds.lt {number : Nat} {text : String} (h : Embeds calls number text) :
    number < (pathsOf calls).eraseDups.length := by
  obtain ⟨before, index, after, rfl, -, hnumber, -⟩ := h
  rw [pathsOf_append]
  exact Nat.lt_of_lt_of_le hnumber (length_eraseDups_le_append _ _)

end Builder

/-! ### What calls leave -/

namespace Draft

open Builder (Call Reply pathsOf namesOf linksOf numbered Embeds FitsNumbers pathsOf_append
  namesOf_append linksOf_append numbered_append embeds_concat)

variable {calls : List Call} {call : Call} {b : Draft}

/-- What is known of the draft that calls leave. -/
def AfterCalls (calls : List Call) (b : Draft) : Prop :=
  ∃ file root content, b = ofMentions file root (pathsOf calls) (namesOf calls) content
      ((linksOf calls).map (numbered calls)) ∧
    ∀ path text, content path = some text ↔
      Embeds calls ((pathsOf calls).eraseDups.idxOf path) text

theorem pathsOf_concat (calls : List Call) (call : Call) :
    pathsOf (calls ++ [call]) = pathsOf calls ++ call.path?.toList := by
  rw [pathsOf_append]
  cases h : call.path? <;> simp [pathsOf, h]

theorem namesOf_concat (calls : List Call) (call : Call) :
    namesOf (calls ++ [call]) = namesOf calls ++ call.name?.toList := by
  rw [namesOf_append]
  cases h : call.name? <;> simp [namesOf, h]

/-- One more call adds its link, if it has one, and leaves the others as they are. -/
theorem map_numbered_concat (calls : List Call) (call : Call) :
    (linksOf (calls ++ [call])).map (numbered (calls ++ [call])) =
      (linksOf calls).map (numbered calls) ++
        (call.link?.map (numbered (calls ++ [call]))).toList := by
  have hlinks : linksOf (calls ++ [call]) = linksOf calls ++ call.link?.toList := by
    rw [linksOf_append]
    cases h : call.link? <;> simp [linksOf, h]
  rw [hlinks, List.map_append, List.map_congr_left fun l hl ↦ numbered_append hl [call]]
  cases call.link? <;> rfl

/-- A path that is not mentioned has no text. -/
theorem content_eq_none {content : String → Option String}
    (hcontent : ∀ path text, content path = some text ↔
      Embeds calls ((pathsOf calls).eraseDups.idxOf path) text) {path : String}
    (h : path ∉ pathsOf calls) : content path = none := by
  refine Option.eq_none_iff_forall_ne_some.2 fun text htext ↦ h ?_
  exact List.mem_eraseDups.1 (List.idxOf_lt_length_iff.1 ((hcontent path text).1 htext).lt)

/-- A call that sets no text leaves the texts as they are. -/
theorem content_concat {content : String → Option String}
    (hcontent : ∀ path text, content path = some text ↔
      Embeds calls ((pathsOf calls).eraseDups.idxOf path) text)
    (hcall : ∀ index text, call ≠ .content index text) (path text : String) :
    content path = some text ↔
      Embeds (calls ++ [call]) ((pathsOf (calls ++ [call])).eraseDups.idxOf path) text := by
  have hothers : ∀ number, Embeds (calls ++ [call]) number text ↔ Embeds calls number text := by
    intro number
    rw [embeds_concat]
    simp [hcall]
  rw [hothers, pathsOf_append]
  by_cases hmem : path ∈ pathsOf calls
  · rw [idxOf_eraseDups_append hmem, hcontent]
  · rw [content_eq_none hcontent hmem]
    refine iff_of_false (by simp) fun h ↦ ?_
    -- a path that is new with the call has a number past those that there were
    have hpast : (pathsOf calls).eraseDups.length ≤
        (pathsOf calls ++ pathsOf [call]).eraseDups.idxOf path := by
      rw [List.eraseDups_append, List.idxOf_append_of_notMem (mt List.mem_eraseDups.1 hmem)]
      exact Nat.le_add_right _ _
    exact absurd h.lt (Nat.not_lt.2 hpast)

/-- Setting a text by a number that some source has sets it for the path of that source. -/
theorem AfterCalls.setContent (h : AfterCalls calls b) (hfit : FitsNumbers calls) (index : UInt32)
    (text : String) : AfterCalls (calls ++ [.content index text]) (b.setContent index text) := by
  obtain ⟨file, root, content, rfl, hcontent⟩ := h
  have hpaths : pathsOf (calls ++ [.content index text]) = pathsOf calls := by
    rw [pathsOf_concat]
    exact List.append_nil _
  have hnames : namesOf (calls ++ [.content index text]) = namesOf calls := by
    rw [namesOf_concat]
    exact List.append_nil _
  have hsegments : (linksOf (calls ++ [.content index text])).map
      (numbered (calls ++ [.content index text])) = (linksOf calls).map (numbered calls) := by
    rw [map_numbered_concat]
    exact List.append_nil _
  rw [AfterCalls, hpaths, hnames, hsegments]
  simp only [embeds_concat]
  by_cases hlt : index.toNat < (pathsOf calls).eraseDups.length
  · set target := (pathsOf calls).eraseDups[index.toNat] with htarget
    have hmem : target ∈ pathsOf calls := List.mem_eraseDups.1 (List.getElem_mem hlt)
    have hidx : (pathsOf calls).eraseDups.idxOf target = index.toNat :=
      (nodup_eraseDups _).idxOf_getElem _ hlt
    have hplace : place (pathsOf calls) target = index := by
      rw [place, hidx, UInt32.ofNat_toNat]
    refine ⟨file, root, Function.update content target (some text), ?_, fun path other ↦ ?_⟩
    · rw [← setContent_ofMentions hmem hfit.paths, hplace]
    · by_cases hpath : path = target
      · subst hpath
        rw [Function.update_self, hidx]
        constructor
        · rintro hsame
          obtain rfl := Option.some.inj hsame
          exact .inl ⟨index, rfl, rfl, hlt⟩
        · rintro (⟨index', hcall, -, -⟩ | ⟨hother, -⟩)
          · obtain ⟨-, rfl⟩ := Call.content.inj hcall
            rfl
          · exact absurd rfl (hother index text rfl)
      · have hne : index.toNat ≠ (pathsOf calls).eraseDups.idxOf path := by
          intro hsame
          have hlt' := hsame ▸ hlt
          refine hpath ?_
          rw [htarget]
          simp only [hsame, List.getElem_idxOf hlt']
        rw [Function.update_of_ne hpath, hcontent]
        constructor
        · refine fun h ↦ .inr ⟨fun index' other' hcall ↦ ?_, h⟩
          rw [← (Call.content.inj hcall).1]
          exact hne
        · rintro (⟨index', hcall, hindex, -⟩ | ⟨-, h⟩)
          · rw [← (Call.content.inj hcall).1] at hindex
            exact absurd hindex hne
          · exact h
  · -- no source has the number
    refine ⟨file, root, content, ?_, fun path other ↦ ?_⟩
    · rw [Draft.setContent, ofMentions, List.modify_toArray, List.modify_eq_self]
      rw [List.length_map]
      exact Nat.not_lt.1 hlt
    · rw [hcontent]
      constructor
      · refine fun h ↦ .inr ⟨fun index' other' hcall hindex ↦ ?_, h⟩
        rw [← (Call.content.inj hcall).1] at hindex
        exact hlt (hindex ▸ h.lt)
      · rintro (⟨index', hcall, hindex, hnumber⟩ | ⟨-, h⟩)
        · rw [← (Call.content.inj hcall).1] at hindex
          exact absurd (hindex ▸ hnumber) hlt
        · exact h

/-- A call that sets no text adds what it mentions and its link. -/
theorem afterCalls_concat (file root : Option String) {content : String → Option String}
    (hcontent : ∀ path text, content path = some text ↔
      Embeds calls ((pathsOf calls).eraseDups.idxOf path) text)
    (hcall : ∀ index text, call ≠ .content index text)
    (hb : b = ofMentions file root (pathsOf calls ++ call.path?.toList)
      (namesOf calls ++ call.name?.toList) content
      ((linksOf calls).map (numbered calls) ++
        (call.link?.map (numbered (calls ++ [call]))).toList)) :
    AfterCalls (calls ++ [call]) b := by
  refine ⟨file, root, content, ?_, content_concat hcontent hcall⟩
  rw [hb, map_numbered_concat, pathsOf_concat, namesOf_concat]

/-- One more call keeps what is known. -/
theorem AfterCalls.perform (h : AfterCalls calls b) (hfit : FitsNumbers calls) (call : Call) :
    AfterCalls (calls ++ [call]) (b.perform call).2 := by
  obtain ⟨file, root, content, rfl, hcontent⟩ := id h
  have hnone : ∀ path, path ∉ pathsOf calls → content path = none :=
    fun _ ↦ content_eq_none hcontent
  cases call with
  | content index text => exact h.setContent hfit index text
  | map generated path position identifier =>
    refine afterCalls_concat file root hcontent (by simp) ?_
    have hnumbered : numbered (calls ++ [.map generated path position identifier])
        ⟨generated, some ⟨path, position, identifier, none⟩⟩ =
          ⟨generated, some ⟨place (pathsOf calls ++ [path]) path, position,
            identifier.map (place (namesOf calls ++ identifier.toList))⟩⟩ := by
      rw [numbered, pathsOf_concat, namesOf_concat]
      rfl
    show addMapping _ generated path position identifier = _
    rw [addMapping_ofMentions (hnone path), ← hnumbered]
    rfl
  | unmapped generated =>
    refine afterCalls_concat file root hcontent (by simp) ?_
    simp [Draft.perform, addUnmapped, addSegment, ofMentions, Call.path?, Call.name?,
      Call.link?, numbered, Link.segment]
  | source path =>
    refine afterCalls_concat file root hcontent (by simp) ?_
    show (addSource _ path).2 = _
    rw [addSource_ofMentions (hnone path)]
    simp [Call.path?, Call.name?, Call.link?]
  | name identifier =>
    refine afterCalls_concat file root hcontent (by simp) ?_
    show (addName _ identifier).2 = _
    rw [addName_ofMentions]
    simp [Call.path?, Call.name?, Call.link?]
  | file newFile =>
    refine afterCalls_concat newFile root hcontent (by simp) ?_
    simp [Draft.perform, ofMentions, Call.path?, Call.name?, Call.link?]
  | root newRoot =>
    refine afterCalls_concat file (some newRoot) hcontent (by simp) ?_
    simp [Draft.perform, ofMentions, Call.path?, Call.name?, Call.link?]

theorem performAll_append (b : Draft) (calls more : List Call) :
    b.performAll (calls ++ more) =
      ((b.performAll calls).1 ++ ((b.performAll calls).2.performAll more).1,
        ((b.performAll calls).2.performAll more).2) := by
  induction calls generalizing b with
  | nil => rfl
  | cons call calls ih => simp only [List.cons_append, performAll, ih]

theorem length_performAll (b : Draft) (calls : List Call) :
    (b.performAll calls).1.length = calls.length := by
  induction calls generalizing b with
  | nil => rfl
  | cons call calls ih => simp [performAll, ih]

/-- What is known of a new draft after a run of calls. -/
theorem afterCalls_performAll (hfit : FitsNumbers calls) :
    AfterCalls calls (({} : Draft).performAll calls).2 := by
  induction calls using List.reverseRecOn with
  | nil =>
    refine ⟨none, none, fun _ ↦ none, rfl, fun path text ↦ iff_of_false (by simp) fun h ↦ ?_⟩
    exact absurd h.lt (Nat.not_lt_zero _)
  | append_singleton calls call ih =>
    rw [performAll_append]
    exact (ih hfit.of_append).perform hfit.of_append call

/-- What a call gives back is what it gives back after the calls before it. -/
theorem getElem?_performAll (before : List Call) (call : Call) (after : List Call) :
    (({} : Draft).performAll (before ++ call :: after)).1[before.length]? =
      some ((({} : Draft).performAll before).2.perform call).1 := by
  have hlength := length_performAll {} before
  rw [performAll_append, List.getElem?_append_right (Nat.le_of_eq hlength), hlength, Nat.sub_self]
  rfl

/-- The number of a string, if 32 bits hold all numbers, is its place. -/
theorem toNat_place {mentions : List String} {a : String} (h : a ∈ mentions)
    (hfit : mentions.eraseDups.length ≤ UInt32.size) :
    (place mentions a).toNat = mentions.eraseDups.idxOf a :=
  UInt32.toNat_ofNat_of_lt' <|
    Nat.lt_of_lt_of_le (List.idxOf_lt_length_iff.2 (List.mem_eraseDups.2 h)) hfit

end Draft

end SourceChain.SourceMap
