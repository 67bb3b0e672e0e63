import SourceChain.Proofs.SourceMap.Obtainable
import SourceChain.Proofs.SourceMap.TwoStepLookup

/-!
# Chains of three maps

A chain of three maps can be composed from either end, and both ways give the same map
(`compose_assoc`), under two conditions on how the maps fit together.

* Every mapped segment of the middle map leads somewhere in the first. A segment that does not is
  dropped from the composition of the two, and the segment before it then covers what it covered.
* A position that the last map leads to may lie at some distance into the segment of the middle map
  that covers it. The first map covers the place at that distance by the segment that covers the
  start (`StaysWithin`). Otherwise one way adds up distances within one segment of the first map,
  and the other starts anew in the next.

What carries the proof is `follow?_compose`: to follow a position through the composition of two
maps is to carry it through the second and to follow the result through the first. Composing is
following segment by segment (`link?_eq_follow?`), so both ways give the same links, and with them
the same tables. Names are looked up by number in the two intermediate maps, so 32 bits have to
number the names of those; the result may have more.
-/

namespace SourceChain.SourceMap

open Mappings (covering? covering?_eq_some)

/-! ### Following a position -/

/-- A location with another name, if it has none of its own. -/
def SourceLocation.orName (location : SourceLocation) (name : Option String) : SourceLocation :=
  { location with name := location.name.or name }

theorem SourceLocation.orName_orName (location : SourceLocation) (name name' : Option String) :
    (location.orName name).orName name' = location.orName (name.or name') := by
  rw [orName, orName, orName, Option.or_assoc]

/-- Where a position leads through a map, with the distance into the covering segment carried
over. -/
def follow? (m : SourceMap) (p : Position) : Option SourceLocation :=
  (carry? m.segments p).bind m.describe?

variable {incoming stage first second third : SourceMap} {s : Segment} {p : Position}

/-- A mapped stage segment becomes a link to where the incoming map leads from it. -/
theorem link?_eq_follow? {via : Origin} (h : s.origin = some via) :
    link? {} incoming stage s = (follow? incoming via.position).map fun location ↦
      ⟨s.generated, some (location.orName (via.name.bind stage.name?))⟩ := by
  rw [link?, h, follow?, Option.map_bind]
  rfl

/-- A mapped stage segment that is carried through the incoming map has a link. -/
theorem exists_link?_of_carry? (stage : SourceMap) (h : incoming.WellFormed) {via origin : Origin}
    (hvia : s.origin = some via) (hcarry : carry? incoming.segments via.position = some origin) :
    ∃ location, incoming.describe? origin = some location ∧
      location.position = origin.position ∧ location.name = origin.name.bind incoming.name? ∧
      link? {} incoming stage s =
        some ⟨s.generated, some (location.orName (via.name.bind stage.name?))⟩ := by
  obtain ⟨source, hsource⟩ := exists_source_of_carry? h hcarry
  have hdescribe : incoming.describe? origin =
      some ⟨incoming.resolve source.path, origin.position, origin.name.bind incoming.name?,
        incoming.content? origin.source⟩ := by
    rw [describe?, resolvedSource?, hsource]
    rfl
  refine ⟨_, hdescribe, rfl, rfl, ?_⟩
  rw [link?_eq_follow? hvia, follow?, hcarry, Option.bind_some, hdescribe, Option.map_some]

/-- An origin is described by where it lies, whatever that is. -/
theorem describe?_of_position {origin : Origin} {location : SourceLocation}
    (h : incoming.describe? origin = some location) (q : Position) :
    incoming.describe? { origin with position := q } = some { location with position := q } := by
  obtain ⟨path, hpath, rfl⟩ := Option.map_eq_some_iff.1 h
  rw [describe?, hpath]
  rfl

/-! ### Distances add up -/

/-- Carrying a position that lies further into the same segment adds the distance between the two
positions. -/
theorem carry?_of_covering?_eq {segments : List Segment} {p q : Position} {origin : Origin}
    {distance : Nat} (hsame : covering? segments p = covering? segments q)
    (hq : q.column.toNat = p.column.toNat + distance) (h : carry? segments p = some origin) :
    carry? segments q =
      if origin.position.column.toNat + distance < UInt32.size then
        some { origin with position :=
          ⟨origin.position.line, UInt32.ofNat (origin.position.column.toNat + distance)⟩ }
      else none := by
  rw [carry?] at h ⊢
  rw [← hsame]
  rcases hcovering : covering? segments p with - | covering
  · simp [hcovering] at h
  · rcases hstart : covering.origin with - | start
    · simp [hcovering, hstart] at h
    · simp only [hcovering, hstart, Option.ite_none_right_eq_some, Option.some.injEq] at h ⊢
      obtain ⟨hlt, rfl⟩ := h
      have hle : covering.generated.column.toNat ≤ p.column.toNat :=
        UInt32.le_iff_toNat_le.1 (covering?_eq_some hcovering).2.2
      have hsum : start.position.column.toNat +
          (q.column.toNat - covering.generated.column.toNat) =
            start.position.column.toNat + (p.column.toNat - covering.generated.column.toNat) +
              distance := by
        omega
      rw [hsum, UInt32.toNat_ofNat_of_lt' hlt]

/-! ### Following a position through a composition -/

/-- If all of its mapped segments lead somewhere, a stage map is covered in the composition as it is
by itself. -/
theorem covering?_compose (hincoming : incoming.WellFormed) (hstage : stage.WellFormed)
    (hsurvive : ∀ t ∈ stage.segments, survives incoming t) (p : Position) :
    covering? (compose incoming stage).segments p =
      ((covering? stage.segments p).bind (link? {} incoming stage)).map
        (Link.segment (Link.paths (composedLinks {} incoming stage))
          (Link.names (composedLinks {} incoming stage))) := by
  have hcompose : compose incoming stage = ofLinks stage.file (composedLinks {} incoming stage) :=
    composeWith_eq_ofLinks hincoming hstage
  have hsurvivor : survivor? incoming stage p = covering? stage.segments p := by
    rw [survivor?, List.filter_eq_self.2 hsurvive]
  rw [hcompose, segments_ofLinks, covering?, List.filter_map, List.getLast?_map, ← hsurvivor,
    ← covering?_composedLinks hincoming]
  rfl

/-- A composition describes the segment of a link as the link says, if 32 bits number its names. -/
theorem describe?_compose {l : Link} {location : SourceLocation} (hincoming : incoming.WellFormed)
    (hdistinct : (incoming.sources.toList.map fun source ↦ incoming.resolve source.path).Nodup)
    (hstage : stage.WellFormed) (hnames : (compose incoming stage).names.size ≤ UInt32.size)
    (hl : l ∈ composedLinks {} incoming stage) (hlocation : l.location = some location) :
    (compose incoming stage).describe?
        ⟨place (Link.paths (composedLinks {} incoming stage)) location.source, location.position,
          location.name.map (place (Link.names (composedLinks {} incoming stage)))⟩ =
      some location := by
  have hcompose : compose incoming stage = ofLinks stage.file (composedLinks {} incoming stage) :=
    composeWith_eq_ofLinks hincoming hstage
  rw [hcompose] at hnames ⊢
  rw [describe?_ofLinks hl hlocation (length_eraseDups_paths_composedLinks_le _ _ _),
    bind_name?_ofLinks hl hlocation hnames, content?_composedLinks hdistinct hl hlocation]

/-- Whether the first map covers the place that a position is carried to through the second by the
same segment as the start of the segment that it is carried through. -/
def StaysWithin (first second : SourceMap) (p : Position) : Prop :=
  ∀ t ∈ second.lookup p, ∀ start ∈ t.origin,
    let distance := p.column - t.generated.column
    start.position.column.toNat + distance.toNat < UInt32.size ∧
      first.lookup ⟨start.position.line, start.position.column + distance⟩ =
        first.lookup start.position

instance (first second : SourceMap) (p : Position) : Decidable (StaysWithin first second p) :=
  inferInstanceAs (Decidable (∀ t ∈ second.lookup p, ∀ start ∈ t.origin, _ ∧ _))

/-- To follow a position through a composition is to carry it through the stage map and to follow
the result through the incoming map. -/
theorem follow?_compose (hfirst : first.WellFormed)
    (hdistinct : (first.sources.toList.map fun source ↦ first.resolve source.path).Nodup)
    (hsecond : second.WellFormed) (hsurvive : ∀ t ∈ second.segments, survives first t)
    (hwithin : StaysWithin first second p)
    (hnames : (compose first second).names.size ≤ UInt32.size) :
    follow? (compose first second) p =
      (carry? second.segments p).bind fun origin ↦
        (follow? first origin.position).map (·.orName (origin.name.bind second.name?)) := by
  rw [follow?, carry?, covering?_compose hfirst hsecond hsurvive]
  rcases hcovering : covering? second.segments p with - | t
  · simp [carry?, hcovering]
  obtain ⟨ht, -, hle⟩ := covering?_eq_some hcovering
  rcases hstart : t.origin with - | start
  · simp [carry?, hcovering, hstart, link?, Link.segment]
  -- the segment leads somewhere, so there is a link to there
  have hkeep := hsurvive t ht
  rw [survives, hstart, Option.all_some] at hkeep
  obtain ⟨origin, hcarry⟩ := Option.isSome_iff_exists.1 hkeep
  obtain ⟨location, hdescribe, hposition, -, hlink⟩ :=
    exists_link?_of_carry? second hfirst hstart hcarry
  have hmem : _ ∈ composedLinks {} first second := List.mem_filterMap.2 ⟨t, ht, hlink⟩
  -- the first map is left at the same distance into the same segment both ways
  have hdistance : (p.column - t.generated.column).toNat =
      p.column.toNat - t.generated.column.toNat := UInt32.toNat_sub_of_le _ _ hle
  obtain ⟨hfits, hsame⟩ := hwithin t (hsecond.lookup_eq p ▸ hcovering) start hstart
  rw [hfirst.lookup_eq, hfirst.lookup_eq] at hsame
  rw [hdistance] at hfits
  have hcolumn : start.position.column + (p.column - t.generated.column) =
      UInt32.ofNat (start.position.column.toNat +
        (p.column.toNat - t.generated.column.toNat)) := by
    rw [← hdistance, UInt32.ofNat_add, UInt32.ofNat_toNat, UInt32.ofNat_toNat]
  rw [hcolumn] at hsame
  have hthrough : carry? second.segments p = some { start with position := ⟨start.position.line,
      UInt32.ofNat (start.position.column.toNat +
        (p.column.toNat - t.generated.column.toNat))⟩ } := by
    simp only [carry?, hcovering, hstart, hfits, if_true]
  rw [Option.bind_some, hlink, hthrough, Option.bind_some, follow?,
    carry?_of_covering?_eq hsame.symm (UInt32.toNat_ofNat_of_lt' hfits) hcarry]
  simp only [Option.map_some, Link.segment, SourceLocation.orName, hposition]
  split
  next hlt =>
    have hdescribed := describe?_compose hfirst hdistinct hsecond hnames hmem rfl
    rw [Option.bind_some, Option.bind_some, describe?_of_position hdescribe]
    exact describe?_of_position hdescribed _
  next => rfl

/-! ### Both ways give the same links -/

/-- A segment of the last map becomes the same link whether it is resolved through the composition
of the other two, or through the second first and then through the first. -/
theorem link?_compose (hfirst : first.WellFormed)
    (hdistinct : (first.sources.toList.map fun source ↦ first.resolve source.path).Nodup)
    (hsecond : second.WellFormed) (hsurvive : ∀ t ∈ second.segments, survives first t)
    (hthird : third.WellFormed) (hs : s ∈ third.segments)
    (hwithin : ∀ via ∈ s.origin, StaysWithin first second via.position)
    (hnames : (compose first second).names.size ≤ UInt32.size)
    (hnames' : (compose second third).names.size ≤ UInt32.size) :
    link? {} (compose first second) third s =
      (link? {} second third s).bind fun l ↦ link? {} first (compose second third)
        (l.segment (Link.paths (composedLinks {} second third))
          (Link.names (composedLinks {} second third))) := by
  rcases horigin : s.origin with - | via
  · simp [link?, horigin, Link.segment]
  have hcompose : compose second third = ofLinks third.file (composedLinks {} second third) :=
    composeWith_eq_ofLinks hsecond hthird
  rw [link?_eq_follow? horigin,
    follow?_compose hfirst hdistinct hsecond hsurvive (hwithin via horigin) hnames]
  rcases hcarry : carry? second.segments via.position with - | origin
  · rw [link?_eq_follow? horigin, follow?, hcarry]
    rfl
  obtain ⟨location, -, hposition, hname, hlink⟩ :=
    exists_link?_of_carry? third hsecond horigin hcarry
  have hmem : _ ∈ composedLinks {} second third := List.mem_filterMap.2 ⟨s, hs, hlink⟩
  rw [hcompose] at hnames' ⊢
  have hbind := bind_name?_ofLinks hmem rfl hnames'
  rw [hlink, Option.bind_some, Option.bind_some, link?_eq_follow? rfl, hbind,
    Option.map_map]
  show _ = (follow? first location.position).map fun found ↦
    Link.mk s.generated (some (found.orName (location.name.or (via.name.bind third.name?))))
  rw [hposition, hname]
  refine Option.map_congr fun found _ ↦ ?_
  rw [Function.comp_apply, SourceLocation.orName_orName]

/-! ### Associativity -/

/-- A chain of three maps can be composed from either end: if the first has no two sources of the
same name, each mapped segment of the second leads somewhere in the first, and what the third leads
to stays within one segment of the first, both ways give the same map. -/
theorem compose_assoc (hfirst : first.WellFormed)
    (hdistinct : (first.sources.toList.map fun source ↦ first.resolve source.path).Nodup)
    (hsecond : second.WellFormed) (hthird : third.WellFormed)
    (hresolves : ∀ t ∈ second.segments, ∀ via ∈ t.origin,
      (resolveOrigin? first via.position).isSome)
    (hwithin : ∀ s ∈ third.segments, ∀ via ∈ s.origin, StaysWithin first second via.position)
    (hnames : (compose first second).names.size ≤ UInt32.size)
    (hnames' : (compose second third).names.size ≤ UInt32.size) :
    compose (compose first second) third = compose first (compose second third) := by
  have hsurvive : ∀ t ∈ second.segments, survives first t := by
    intro t ht
    rw [survives, Option.all_eq_true]
    intro via hvia
    rw [← resolveOrigin?_eq_carry? hfirst]
    exact hresolves t ht via hvia
  have hleft := wellFormed_composeWith {} hfirst hsecond
  have hright := wellFormed_composeWith {} hsecond hthird
  have hsegments : (compose second third).segments = (composedLinks {} second third).map
      (Link.segment (Link.paths (composedLinks {} second third))
        (Link.names (composedLinks {} second third))) := by
    rw [compose, composeWith_eq_ofLinks hsecond hthird, segments_ofLinks]
  have hfile : (compose second third).file = third.file := by
    rw [compose, composeWith_eq_ofLinks hsecond hthird]
    rfl
  have hlinks : composedLinks {} (compose first second) third =
      composedLinks {} first (compose second third) := by
    rw [composedLinks, composedLinks, hsegments, List.filterMap_map, composedLinks,
      List.filterMap_filterMap]
    refine List.filterMap_congr fun s hs ↦ ?_
    exact link?_compose hfirst hdistinct hsecond hsurvive hthird hs (hwithin s hs) hnames hnames'
  calc compose (compose first second) third
      = ofLinks third.file (composedLinks {} (compose first second) third) :=
        composeWith_eq_ofLinks hleft hthird
    _ = ofLinks (compose second third).file (composedLinks {} first (compose second third)) := by
        rw [hlinks, hfile]
    _ = compose first (compose second third) := (composeWith_eq_ofLinks hfirst hright).symm

/-- A map of the buffer that `sampleIncoming` is for, whose segments all lead somewhere. -/
def sampleMiddle : SourceMap :=
  ofTrusted {
    file := some "late.js"
    paths := ["mid.js"]
    names := ["y"]
    segments := [⟨⟨1, 0⟩, none⟩, ⟨⟨1, 3⟩, some ⟨0, ⟨1, 4⟩, some 0⟩⟩,
      ⟨⟨2, 0⟩, some ⟨0, ⟨1, 1⟩, none⟩⟩] }

/-- A map over `sampleMiddle` that leads into generated text and into the middle of segments. -/
def sampleLast : SourceMap :=
  ofTrusted {
    file := some "out.js"
    paths := ["late.js"]
    names := ["z"]
    segments := [⟨⟨1, 0⟩, some ⟨0, ⟨1, 1⟩, none⟩⟩, ⟨⟨1, 2⟩, some ⟨0, ⟨1, 5⟩, some 0⟩⟩,
      ⟨⟨2, 0⟩, some ⟨0, ⟨2, 2⟩, some 0⟩⟩] }

theorem compose_sample_assoc :
    sampleIncoming.WellFormed ∧
    (sampleIncoming.sources.toList.map fun source ↦ sampleIncoming.resolve source.path).Nodup ∧
    sampleMiddle.WellFormed ∧ sampleLast.WellFormed ∧
    (∀ t ∈ sampleMiddle.segments, ∀ via ∈ t.origin,
      (resolveOrigin? sampleIncoming via.position).isSome) ∧
    (∀ s ∈ sampleLast.segments, ∀ via ∈ s.origin,
      StaysWithin sampleIncoming sampleMiddle via.position) ∧
    (compose sampleIncoming sampleMiddle).names.size ≤ UInt32.size ∧
    (compose sampleMiddle sampleLast).names.size ≤ UInt32.size ∧
    compose (compose sampleIncoming sampleMiddle) sampleLast =
      compose sampleIncoming (compose sampleMiddle sampleLast) := by
  have hfirst : sampleIncoming.WellFormed := by decide
  have hdistinct :
      (sampleIncoming.sources.toList.map fun source ↦ sampleIncoming.resolve source.path).Nodup := by
    decide
  have hsecond : sampleMiddle.WellFormed := by decide
  have hthird : sampleLast.WellFormed := by decide
  have hresolves : ∀ t ∈ sampleMiddle.segments, ∀ via ∈ t.origin,
      (resolveOrigin? sampleIncoming via.position).isSome := by
    decide
  have hwithin : ∀ s ∈ sampleLast.segments, ∀ via ∈ s.origin,
      StaysWithin sampleIncoming sampleMiddle via.position := by
    decide
  have hnames : (compose sampleIncoming sampleMiddle).names.size ≤ UInt32.size :=
    Nat.le_trans (size_names_composeWith_le {} hfirst hsecond) (by decide)
  have hnames' : (compose sampleMiddle sampleLast).names.size ≤ UInt32.size :=
    Nat.le_trans (size_names_composeWith_le {} hsecond hthird) (by decide)
  exact ⟨hfirst, hdistinct, hsecond, hthird, hresolves, hwithin, hnames, hnames',
    compose_assoc hfirst hdistinct hsecond hthird hresolves hwithin hnames hnames'⟩

end SourceChain.SourceMap
