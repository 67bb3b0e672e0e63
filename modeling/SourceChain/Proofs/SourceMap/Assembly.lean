import SourceChain.Proofs.Mappings.LineTable
import SourceChain.Proofs.SourceMap.WellFormed

/-!
# What assembly accepts, and what it refuses

Assembly goes through the segments twice: once to check each of them against the tables, and once
more to check their order. So a segment that breaks its promise decides the error however far behind
a pair that descends it stands, and the order counts only if all segments keep their promise.
`Segment.Breaks` says which promise of one segment is looked at first, and
`checkSegments_eq_error_iff` which segment.

A map that is assembled holds its parts as they were given, but for the contents of the sources: it
has one slot for each source, so contents that are missing are absent, and those beyond the last
source are dropped (`map_content_pairSources`).
-/

namespace SourceChain

/-- Why a segment is refused in a map with so many sources and names. Each case has among its
conditions that what is asked before it holds. -/
inductive Segment.Breaks (sources names : Nat) (s : Segment) : SourceMap.Error → Prop
  /-- The generated line is zero. -/
  | line (hline : s.generated.line = 0) : Breaks sources names s (.position .zeroLine)
  /-- The source does not exist. -/
  | source {origin : Origin} (hline : s.generated.line ≠ 0) (horigin : s.origin = some origin)
      (hsource : sources ≤ origin.source.toNat) :
      Breaks sources names s (.sourceIndex origin.source)
  /-- The original line is zero. -/
  | originLine {origin : Origin} (hline : s.generated.line ≠ 0) (horigin : s.origin = some origin)
      (hsource : origin.source.toNat < sources) (hposition : origin.position.line = 0) :
      Breaks sources names s (.position .zeroLine)
  /-- The name does not exist. -/
  | name {origin : Origin} {index : UInt32} (hline : s.generated.line ≠ 0)
      (horigin : s.origin = some origin) (hsource : origin.source.toNat < sources)
      (hposition : origin.position.line ≠ 0) (hindex : origin.name = some index)
      (hname : names ≤ index.toNat) :
      Breaks sources names s (.nameIndex index)

namespace SourceMap

open Mappings (Sorted)

/-! ### Segments -/

variable {sources names : Nat} {s : Segment} {e : Error}

theorem breaks_of_checkSegment (h : checkSegment sources names s = .error e) :
    s.Breaks sources names e := by
  rw [checkSegment] at h
  split at h
  next hline =>
    obtain rfl := Except.error.inj h
    exact .line hline
  next hline =>
    split at h
    next => cases h
    next origin horigin =>
      rw [checkOrigin] at h
      split at h
      next hsource =>
        obtain rfl := Except.error.inj h
        exact .source hline horigin hsource
      next hsource =>
        have hsource := Nat.not_le.1 hsource
        split at h
        next hposition =>
          obtain rfl := Except.error.inj h
          exact .originLine hline horigin hsource hposition
        next hposition =>
          split at h
          next => cases h
          next index hindex =>
            split at h
            next hname =>
              obtain rfl := Except.error.inj h
              exact .name hline horigin hsource hposition hindex hname
            next => cases h

theorem checkSegment_of_breaks (h : s.Breaks sources names e) :
    checkSegment sources names s = .error e := by
  rw [checkSegment]
  cases h with
  | line hline => rw [if_pos hline]
  | source hline horigin hsource => simp [hline, horigin, checkOrigin, hsource]
  | originLine hline horigin hsource hposition =>
    simp [hline, horigin, checkOrigin, Nat.not_le.2 hsource, hposition]
  | name hline horigin hsource hposition hindex hname =>
    simp [hline, horigin, checkOrigin, Nat.not_le.2 hsource, hposition, hindex, hname]

/-- A segment is refused for the first promise that it breaks. -/
theorem checkSegment_eq_error_iff :
    checkSegment sources names s = .error e ↔ s.Breaks sources names e :=
  ⟨breaks_of_checkSegment, checkSegment_of_breaks⟩

/-- Segments are refused for the first of them that breaks a promise. -/
theorem checkSegments_eq_error_iff {segments : List Segment} :
    checkSegments sources names segments = .error e ↔ ∃ before s after,
      segments = before ++ s :: after ∧ (∀ t ∈ before, t.Valid sources names) ∧
        s.Breaks sources names e := by
  simp only [← checkSegment_eq_ok_iff, ← checkSegment_eq_error_iff]
  induction segments with
  | nil => simp [checkSegments]
  | cons first rest ih =>
    simp only [checkSegments, List.cons_eq_append_iff]
    split
    next hok =>
      rw [ih]
      refine ⟨?_, ?_⟩
      · rintro ⟨before, s, after, rfl, hbefore, hs⟩
        refine ⟨first :: before, s, after, .inr ⟨before, rfl, rfl⟩, ?_, hs⟩
        exact List.forall_mem_cons.2 ⟨hok, hbefore⟩
      · rintro ⟨before, s, after, ⟨rfl, hsame⟩ | ⟨before, rfl, rfl⟩, hbefore, hs⟩
        · obtain ⟨rfl, rfl⟩ := List.cons.inj hsame
          exact absurd (hok.symm.trans hs) (by simp)
        · exact ⟨before, s, after, rfl, (List.forall_mem_cons.1 hbefore).2, hs⟩
    next e' he =>
      refine ⟨fun h ↦ ?_, ?_⟩
      · exact ⟨[], first, rest, .inl ⟨rfl, rfl⟩, by simp, he.trans h⟩
      · rintro ⟨before, s, after, ⟨rfl, hsame⟩ | ⟨before, rfl, rfl⟩, hbefore, hs⟩
        · obtain ⟨rfl, rfl⟩ := List.cons.inj hsame
          exact he.symm.trans hs
        · exact absurd (he.symm.trans (List.forall_mem_cons.1 hbefore).1) (by simp)

/-! ### Parts -/

/-- Each source has one slot for its content. -/
theorem map_content_pairSources (paths : List String) (contents : List (Option String)) :
    (pairSources paths contents).map Source.content = contents.takeD paths.length none := by
  induction paths generalizing contents with
  | nil => rfl
  | cons path paths ih =>
    rcases contents with - | ⟨content, contents⟩ <;>
      rw [pairSources, List.map_cons, ih, List.length_cons, List.takeD_succ] <;> rfl

/-- A map that takes its parts on trust holds them. -/
theorem toParts_ofTrusted (parts : Parts) :
    (ofTrusted parts).toParts =
      { parts with contents := parts.contents.takeD parts.paths.length none } := by
  have hsources : (ofTrusted parts).sources.toList = pairSources parts.paths parts.contents := rfl
  rw [toParts, hsources, map_path_pairSources, map_content_pairSources]
  rfl

/-- A map is the one that its parts and its line table make. -/
theorem eq_ofTrusted_iff {parts : Parts} {m : SourceMap} :
    m = ofTrusted parts ↔
      m.toParts = { parts with contents := parts.contents.takeD parts.paths.length none } ∧
        m.mappings = Mappings.ofSorted parts.segments := by
  refine ⟨?_, fun ⟨hparts, hmappings⟩ ↦ ?_⟩
  · rintro rfl
    exact ⟨toParts_ofTrusted parts, rfl⟩
  · calc m = ofMappings m.toParts m.mappings := (ofMappings_toParts m).symm
      _ = ofMappings (ofTrusted parts).toParts (ofTrusted parts).mappings := by
        rw [hparts, ← toParts_ofTrusted, hmappings]
        rfl
      _ = ofTrusted parts := ofMappings_toParts _

/-- Assembly fails for the first segment that breaks a promise, and only if there is none for the
first two neighbours that descend. -/
theorem ofParts_eq_error_iff {parts : Parts} :
    ofParts parts = .error e ↔
      (∃ before s after, parts.segments = before ++ s :: after ∧
        (∀ t ∈ before, t.Valid parts.paths.length parts.names.length) ∧
        s.Breaks parts.paths.length parts.names.length e) ∨
      (∀ s ∈ parts.segments, s.Valid parts.paths.length parts.names.length) ∧
        ∃ before a b after, parts.segments = before ++ a :: b :: after ∧ Sorted (before ++ [a]) ∧
          b.generated < a.generated ∧ e = .mappings (.unordered a.generated b.generated) := by
  -- a descent is what the second pass is refused for
  have hdescent : (∃ before a b after, parts.segments = before ++ a :: b :: after ∧
      Sorted (before ++ [a]) ∧ b.generated < a.generated ∧
        e = .mappings (.unordered a.generated b.generated)) ↔
      ∃ cause, Mappings.ofSegments parts.segments = .error cause ∧ e = .mappings cause := by
    simp only [Mappings.ofSegments_eq_error_iff]
    refine ⟨?_, ?_⟩
    · rintro ⟨before, a, b, after, hsplit, hsorted, hlt, rfl⟩
      exact ⟨_, ⟨before, a, b, after, hsplit, hsorted, hlt, rfl⟩, rfl⟩
    · rintro ⟨_, ⟨before, a, b, after, hsplit, hsorted, hlt, rfl⟩, rfl⟩
      exact ⟨before, a, b, after, hsplit, hsorted, hlt, rfl⟩
  rw [hdescent, ← checkSegments_eq_ok_iff_valid, ← checkSegments_eq_error_iff, ofParts]
  split
  next e' he => simp [he]
  next hok =>
    split
    next cause hcause => simp [hok, hcause, eq_comm]
    next mappings hmappings => simp [hok, hmappings]

/-- Assembly succeeds exactly if all segments keep their promise and are in order, and the map then
holds the parts, with one slot for the content of each source. Otherwise the first segment that
breaks a promise decides the error, and only if there is none the first two neighbours that
descend. -/
theorem ofParts_determined_by_segments (parts : Parts) :
    (∀ m, ofParts parts = .ok m ↔
      (∀ s ∈ parts.segments, s.Valid parts.paths.length parts.names.length) ∧
        Sorted parts.segments ∧
        m.toParts = { parts with contents := parts.contents.takeD parts.paths.length none } ∧
        m.mappings = Mappings.ofSorted parts.segments) ∧
    ∀ e, ofParts parts = .error e ↔
      (∃ before s after, parts.segments = before ++ s :: after ∧
        (∀ t ∈ before, t.Valid parts.paths.length parts.names.length) ∧
        s.Breaks parts.paths.length parts.names.length e) ∨
      (∀ s ∈ parts.segments, s.Valid parts.paths.length parts.names.length) ∧
        ∃ before a b after, parts.segments = before ++ a :: b :: after ∧ Sorted (before ++ [a]) ∧
          b.generated < a.generated ∧ e = .mappings (.unordered a.generated b.generated) := by
  refine ⟨fun m ↦ ?_, fun e ↦ ofParts_eq_error_iff⟩
  rw [ofParts_eq_ok_iff, eq_ofTrusted_iff]

-- the first two segments descend, and the third points at a source that does not exist
example : ofParts { paths := ["a"], segments :=
    [⟨⟨2, 0⟩, none⟩, ⟨⟨1, 0⟩, none⟩, ⟨⟨3, 0⟩, some ⟨1, ⟨0, 0⟩, none⟩⟩] } =
      .error (.sourceIndex 1) := rfl

end SourceMap

end SourceChain
