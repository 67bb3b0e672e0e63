import SourceChain.Proofs.Mappings.Lookup
import SourceChain.SourceMap.Basic

/-!
# Well-formed source maps

What a source map promises to everything that reads it: the segments are in order, their lines
count from one, their indices exist in the tables of the map, and the line table counts segments.
The promise about one segment is `Segment.Valid`, which is exactly what `checkSegment` checks.

A map keeps the promise exactly if `ofParts` gives it back from its own parts
(`wellFormed_iff_ofParts_toParts`). Maps from `ofTrusted` are not checked at all, so there the
promise rests on the caller (`wellFormed_ofTrusted`).

The contents of the sources need no clause of their own: a source carries its content with it, so
there is one slot for each.
-/

namespace SourceChain

/-- What an origin promises in a map with so many sources and names. -/
structure Origin.Valid (sources names : Nat) (origin : Origin) : Prop where
  /-- The line counts from one. -/
  line_ne_zero : origin.position.line ≠ 0
  /-- The source exists. -/
  source_lt : origin.source.toNat < sources
  /-- The name exists, if there is one. -/
  name_lt : ∀ name ∈ origin.name, name.toNat < names

/-- What a segment promises in a map with so many sources and names. -/
structure Segment.Valid (sources names : Nat) (s : Segment) : Prop where
  /-- The generated line counts from one. -/
  line_ne_zero : s.generated.line ≠ 0
  /-- The origin keeps its promise, if there is one. -/
  origin : ∀ origin ∈ s.origin, origin.Valid sources names

namespace SourceMap

open Mappings (Sorted)

/-! ### The checks -/

theorem checkOrigin_eq_ok_iff {sources names : Nat} {origin : Origin} :
    checkOrigin sources names origin = .ok () ↔ origin.Valid sources names := by
  rw [checkOrigin]
  split
  next hsource =>
    exact iff_of_false (by simp) fun h ↦ absurd h.source_lt (Nat.not_lt.2 hsource)
  next hsource =>
    split
    next hline => exact iff_of_false (by simp) fun h ↦ h.line_ne_zero hline
    next hline =>
      split
      next hname =>
        exact iff_of_true rfl ⟨hline, Nat.not_le.1 hsource, by simp [hname]⟩
      next name hname =>
        split
        next hlt =>
          exact iff_of_false (by simp) fun h ↦ absurd (h.name_lt name hname) (Nat.not_lt.2 hlt)
        next hlt =>
          refine iff_of_true rfl ⟨hline, Nat.not_le.1 hsource, fun n hn ↦ ?_⟩
          obtain rfl := Option.some.inj (hname.symm.trans hn)
          exact Nat.not_le.1 hlt

theorem checkSegment_eq_ok_iff {sources names : Nat} {s : Segment} :
    checkSegment sources names s = .ok () ↔ s.Valid sources names := by
  rw [checkSegment]
  split
  next hline => exact iff_of_false (by simp) fun h ↦ h.line_ne_zero hline
  next hline =>
    split
    next horigin => exact iff_of_true rfl ⟨hline, by simp [horigin]⟩
    next origin horigin =>
      rw [checkOrigin_eq_ok_iff]
      refine ⟨fun h ↦ ⟨hline, fun o ho ↦ ?_⟩, fun h ↦ h.origin origin horigin⟩
      exact Option.some.inj (horigin.symm.trans ho) ▸ h

theorem checkSegments_eq_ok_iff_valid {sources names : Nat} {segments : List Segment} :
    checkSegments sources names segments = .ok () ↔ ∀ s ∈ segments, s.Valid sources names := by
  simp only [checkSegments_eq_ok_iff, checkSegment_eq_ok_iff]

/-- Assembly succeeds exactly on sorted segments that keep their promise. -/
theorem ofParts_eq_ok_iff {parts : Parts} {m : SourceMap} :
    ofParts parts = .ok m ↔
      (∀ s ∈ parts.segments, s.Valid parts.paths.length parts.names.length) ∧
        Sorted parts.segments ∧ m = ofTrusted parts := by
  rw [← checkSegments_eq_ok_iff_valid, ofParts]
  split
  next e he => simp [he]
  next hok =>
    split
    next e he =>
      refine iff_of_false (by simp) fun ⟨_, hsorted, _⟩ ↦ ?_
      rw [(Mappings.ofSegments_eq_ok_iff (m := Mappings.ofSorted _)).2 ⟨hsorted, rfl⟩] at he
      cases he
    next mappings hmappings =>
      obtain ⟨hsorted, rfl⟩ := Mappings.ofSegments_eq_ok_iff.1 hmappings
      simp [hok, hsorted, ofTrusted, eq_comm]

/-! ### The invariant -/

/-- What a source map promises. -/
structure WellFormed (m : SourceMap) : Prop where
  /-- The segments never go backwards in generated position. -/
  sorted : Sorted m.segments
  /-- Lines count from one, and indices exist in the tables of the map. -/
  valid : ∀ s ∈ m.segments, s.Valid m.sources.size m.names.size
  /-- The line table has a place for line zero and one for each line up to the last. -/
  size_lineOffsets : m.mappings.lineOffsets.size = m.mappings.lastLine.toNat + 1
  /-- The entry of a line counts the segments on the lines up to it. -/
  getElem_lineOffsets : ∀ (n : Nat) (h : n < m.mappings.lineOffsets.size),
    m.mappings.lineOffsets[n] = m.segments.countP (·.generated.line.toNat ≤ n)

variable {m : SourceMap} {parts : Parts}

theorem wellFormed_ofTrusted (hsorted : Sorted parts.segments)
    (hvalid : ∀ s ∈ parts.segments, s.Valid parts.paths.length parts.names.length) :
    (ofTrusted parts).WellFormed where
  sorted := hsorted
  valid := by
    have hpaths : (ofTrusted parts).sources.size = parts.paths.length := by
      rw [← map_path_pairSources parts.paths parts.contents, List.length_map]
      rfl
    rw [hpaths]
    exact hvalid
  size_lineOffsets := by
    show (Mappings.ofSorted parts.segments).lineOffsets.size = _
    rw [Mappings.size_lineOffsets_ofSorted, ← Mappings.lastLine_ofSorted]
    rfl
  getElem_lineOffsets _ h := Mappings.getElem_lineOffsets_ofSorted hsorted h

theorem wellFormed_of_ofParts (h : ofParts parts = .ok m) : m.WellFormed := by
  obtain ⟨hvalid, hsorted, rfl⟩ := ofParts_eq_ok_iff.1 h
  exact wellFormed_ofTrusted hsorted hvalid

namespace WellFormed

/-- The line table is the one that belongs to the segments. -/
theorem mappings_eq (h : m.WellFormed) : m.mappings = Mappings.ofSorted m.segments := by
  have hlast : m.mappings.lastLine = Mappings.lastLineOf m.segments := by
    rw [← Mappings.lastLine_ofSorted]
    rfl
  have hsize : m.mappings.lineOffsets.size =
      (Mappings.ofSorted m.segments).lineOffsets.size := by
    rw [h.size_lineOffsets, Mappings.size_lineOffsets_ofSorted, hlast]
  have hoffsets : m.mappings.lineOffsets = (Mappings.ofSorted m.segments).lineOffsets :=
    Array.ext hsize fun n hn hn' ↦ by
      rw [h.getElem_lineOffsets n hn, Mappings.getElem_lineOffsets_ofSorted h.sorted hn']
  rw [Mappings.ofSorted, Mappings.mk.injEq]
  exact ⟨rfl, hoffsets⟩

/-- A well-formed map is the one that its own parts make. -/
theorem ofTrusted_toParts (h : m.WellFormed) : ofTrusted m.toParts = m := by
  rw [ofTrusted]
  show ofMappings m.toParts (Mappings.ofSorted m.segments) = m
  rw [← h.mappings_eq, ofMappings_toParts]

theorem ofParts_toParts (h : m.WellFormed) : ofParts m.toParts = .ok m := by
  refine ofParts_eq_ok_iff.2 ⟨?_, h.sorted, h.ofTrusted_toParts.symm⟩
  simpa [toParts] using h.valid

/-- A lookup is a scan of the segments. -/
theorem lookup_eq (h : m.WellFormed) (p : Position) :
    m.lookup p = Mappings.covering? m.segments p := by
  rw [lookup, h.mappings_eq]
  exact Mappings.find?_ofSorted_of_line_ne_zero h.sorted (fun s hs ↦ (h.valid s hs).line_ne_zero) p

end WellFormed

/-- The promise is what assembly checks. -/
theorem wellFormed_iff_ofParts_toParts : m.WellFormed ↔ ofParts m.toParts = .ok m :=
  ⟨WellFormed.ofParts_toParts, wellFormed_of_ofParts⟩

instance : Decidable m.WellFormed :=
  decidable_of_iff (ofParts m.toParts = .ok m) wellFormed_iff_ofParts_toParts.symm

end SourceMap

end SourceChain
