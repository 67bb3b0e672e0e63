import SourceChain.Proofs.Mappings.Arithmetic
import SourceChain.Proofs.SourceMap.WellFormed
import SourceChain.SourceMap.Compose

/-!
# No arithmetic leaves its range

The reader and the writer that run with words are run here with integers. Both keep to the ranges
that are given for their steps, so they come to the same. Composition subtracts the column of a segment from that of a position,
without a sign. The segment covers the position, and a lookup in a well-formed map finds none that
lies behind it (`column_le_of_lookup`).
-/

namespace SourceChain.SourceMap

section Distance

variable {incoming : SourceMap} {p : Position} {covering : Segment}

/-- A segment that covers a position does not lie behind it. -/
theorem column_le_of_lookup (h : incoming.WellFormed)
    (hlookup : incoming.lookup p = some covering) : covering.generated.column ≤ p.column := by
  rw [h.lookup_eq] at hlookup
  exact (Mappings.covering?_eq_some hlookup).2.2

/-- The distance from a segment to the position that it covers does not wrap. -/
theorem toNat_distance (h : incoming.WellFormed) (hlookup : incoming.lookup p = some covering) :
    ((p.column - covering.generated.column).toNat : Int) =
      p.column.toNat - covering.generated.column.toNat := by
  have hle := column_le_of_lookup h hlookup
  rw [UInt32.toNat_sub_of_le _ _ hle]
  exact Int.ofNat_sub (UInt32.le_iff_toNat_le.1 hle)

/-- Neither does the column that it is carried over to. -/
theorem toNat_column_of_resolveOrigin? (h : incoming.WellFormed)
    (hlookup : incoming.lookup p = some covering) {origin resolved : Origin}
    (horigin : covering.origin = some origin)
    (hresolve : resolveOrigin? incoming p = some resolved) :
    (resolved.position.column.toNat : Int) =
      origin.position.column.toNat + (p.column.toNat - covering.generated.column.toNat) := by
  rw [resolveOrigin?, hlookup] at hresolve
  dsimp only at hresolve
  rw [horigin] at hresolve
  dsimp only at hresolve
  split at hresolve
  next hfits =>
    obtain rfl := Option.some.inj hresolve
    rw [← toNat_distance h hlookup]
    show ((origin.position.column + (p.column - covering.generated.column)).toNat : Int) = _
    rw [UInt32.toNat_add, Nat.mod_eq_of_lt hfits, Int.natCast_add]
  next => cases hresolve

end Distance

/-- Nothing that is computed leaves its range. Where steps out of range put an end to reading or
writing, both still come to what they come to with words; and so they do with integers, where
nothing puts an end to them. In a well-formed map, the distance from the segment that covers a
position is never below zero, and the column that it is carried over to is an exact sum. -/
theorem arithmetic_in_range :
    (∀ text,
      (Vlq.checkedDecode Vlq.Step.InRange text).run =
          some ((Vlq.decode text).map (List.map Int64.toInt)) ∧
        (Vlq.checkedDecode (fun _ ↦ True) text).run =
          some ((Vlq.decode text).map (List.map Int64.toInt))) ∧
      (∀ text,
        (Mappings.checkedDecode Mappings.Step.InRange text).run =
            some ((Mappings.decode text).mapError Mappings.Error.refusal) ∧
          (Mappings.checkedDecode (fun _ ↦ True) text).run =
            some ((Mappings.decode text).mapError Mappings.Error.refusal)) ∧
      (∀ segments,
        Mappings.checkedEncode Mappings.WriteStep.InRange segments =
            some (Mappings.encode segments) ∧
          Mappings.checkedEncode (fun _ ↦ True) segments = some (Mappings.encode segments)) ∧
      ∀ incoming : SourceMap, incoming.WellFormed → ∀ p covering,
        incoming.lookup p = some covering →
          0 ≤ (p.column.toNat : Int) - covering.generated.column.toNat ∧
            ((p.column - covering.generated.column).toNat : Int) =
              p.column.toNat - covering.generated.column.toNat ∧
            ∀ origin resolved, covering.origin = some origin →
              resolveOrigin? incoming p = some resolved →
                (resolved.position.column.toNat : Int) = origin.position.column.toNat +
                  (p.column.toNat - covering.generated.column.toNat) := by
  refine ⟨fun text ↦ ⟨Vlq.run_checkedDecode (fun _ h ↦ h) text,
      Vlq.run_checkedDecode (fun _ _ ↦ trivial) text⟩,
    fun text ↦ ⟨Mappings.run_checkedDecode (fun _ h ↦ h) text,
      Mappings.run_checkedDecode (fun _ _ ↦ trivial) text⟩,
    fun segments ↦ ⟨Mappings.checkedEncode_eq (fun _ h ↦ h) segments,
      Mappings.checkedEncode_eq (fun _ _ ↦ trivial) segments⟩, ?_⟩
  intro incoming hincoming p covering hlookup
  have hdistance := toNat_distance hincoming hlookup
  exact ⟨hdistance ▸ Int.natCast_nonneg _, hdistance, fun origin resolved horigin hresolve ↦
    toNat_column_of_resolveOrigin? hincoming hlookup horigin hresolve⟩

/-- A segment near the last column that there is, which comes from near the last column. -/
def sampleFar : SourceMap :=
  ofTrusted {
    paths := ["a.coffee"]
    segments := [⟨⟨1, 4294967290⟩, some ⟨0, ⟨1, 4294967290⟩, none⟩⟩] }

/-- The last column is carried over to the last column. -/
theorem arithmetic_in_range_sampleFar :
    sampleFar.WellFormed ∧
      sampleFar.lookup ⟨1, 4294967295⟩ =
        some ⟨⟨1, 4294967290⟩, some ⟨0, ⟨1, 4294967290⟩, none⟩⟩ ∧
      resolveOrigin? sampleFar ⟨1, 4294967295⟩ = some ⟨0, ⟨1, 4294967295⟩, none⟩ ∧
      (((4294967295 : UInt32) - 4294967290).toNat : Int) = 4294967295 - 4294967290 ∧
      (4294967295 : Int) = 4294967290 + (4294967295 - 4294967290) := by
  have hfar : sampleFar.WellFormed := by decide
  have hlookup : sampleFar.lookup ⟨1, 4294967295⟩ =
      some ⟨⟨1, 4294967290⟩, some ⟨0, ⟨1, 4294967290⟩, none⟩⟩ := by decide
  have hresolve : resolveOrigin? sampleFar ⟨1, 4294967295⟩ =
      some ⟨0, ⟨1, 4294967295⟩, none⟩ := by decide
  obtain ⟨-, hdistance, hcolumn⟩ := arithmetic_in_range.2.2.2 _ hfar _ _ hlookup
  exact ⟨hfar, hlookup, hresolve, hdistance, hcolumn _ _ rfl hresolve⟩

end SourceChain.SourceMap
