import SourceChain.Proofs.Json.Reader
import SourceChain.Proofs.Mappings.RoundTrip
import SourceChain.Proofs.SourceMap.Obtainable

/-!
# Source maps read back as they were written

A document reads back from its JSON text and from its JSON value, whatever its fields hold
(`Document.reads_toValue`, `Document.ofValue?_toValue`). A map is taken to a document by writing its
segments as a mappings text and leaving out contents that are all absent; both are undone if the map
is well formed (`WellFormed.ofDocument_toDocument`).

So every map that can be obtained reads back from what is written for it, and writing what was read
from any text is final: reading and writing that once more changes nothing
(`reserialize_bind_reserialize`).
-/

namespace SourceChain.SourceMap

open Json (Value octetsOf)
open Json.Reader (Reads Collects reads_text reads_word32 reads_list)

namespace Document

/-! ### Documents as JSON texts -/

theorem reads_texts (texts : List String) :
    Reads (Json.Reader.list Json.Reader.text) texts (.list (texts.map .text)) :=
  reads_list fun s _ ↦ reads_text s

theorem reads_contents (contents : List (Option String)) :
    Reads (Json.Reader.list (Json.Reader.optional Json.Reader.text)) contents
      (.list (contents.map (Value.ofOption .text))) :=
  reads_list fun _ _ ↦ .optional (fun s _ ↦ reads_text s) fun _ ↦ Value.noConfusion

/-- A document reads back from its JSON text. -/
theorem reads_toValue (d : Document) : Reads reader d d.toValue := by
  obtain ⟨version, file, sourceRoot, sources, sourcesContent, names, mappings⟩ := d
  -- what has been collected grows field by field; a field that is left out leaves it as it was
  have hversion : Collects fields {} [("version", .integer version.toNat)]
      { version := some version } :=
    (reads_word32 version).collects rfl rfl rfl
  have hfile : Collects fields { version := some version }
      (file.toList.map fun s ↦ ("file", .text s))
      { version := some version, file := file.map some } := by
    cases file with
    | none => exact .nil _
    | some s => exact ((reads_text s).optional_some Value.noConfusion).collects rfl rfl rfl
  have hroot : Collects fields { version := some version, file := file.map some }
      (sourceRoot.toList.map fun s ↦ ("sourceRoot", .text s))
      { version := some version, file := file.map some, sourceRoot := sourceRoot.map some } := by
    cases sourceRoot with
    | none => exact .nil _
    | some s => exact ((reads_text s).optional_some Value.noConfusion).collects rfl rfl rfl
  have hsources : Collects fields
      { version := some version, file := file.map some, sourceRoot := sourceRoot.map some }
      [("sources", .list (sources.map .text))]
      { version := some version, file := file.map some, sourceRoot := sourceRoot.map some,
        sources := some sources } :=
    (reads_texts sources).collects rfl rfl rfl
  have hcontents : Collects fields
      { version := some version, file := file.map some, sourceRoot := sourceRoot.map some,
        sources := some sources }
      (sourcesContent.toList.map
        fun contents ↦ ("sourcesContent", .list (contents.map (Value.ofOption .text))))
      { version := some version, file := file.map some, sourceRoot := sourceRoot.map some,
        sources := some sources, sourcesContent := sourcesContent.map some } := by
    cases sourcesContent with
    | none => exact .nil _
    | some contents =>
      exact ((reads_contents contents).optional_some Value.noConfusion).collects rfl rfl rfl
  have hnames : Collects fields
      { version := some version, file := file.map some, sourceRoot := sourceRoot.map some,
        sources := some sources, sourcesContent := sourcesContent.map some }
      [("names", .list (names.map .text)), ("mappings", .text mappings)]
      { version := some version, file := file.map some, sourceRoot := sourceRoot.map some,
        sources := some sources, sourcesContent := sourcesContent.map some,
        names := some names, mappings := some mappings } :=
    ((reads_texts names).collects rfl rfl rfl).append ((reads_text mappings).collects rfl rfl rfl)
  have hall := ((((hversion.append hfile).append hroot).append hsources).append hcontents).append
    hnames
  refine hall.reads_record ?_
  cases file <;> cases sourceRoot <;> cases sourcesContent <;> rfl

/-! ### Documents as JSON values -/

theorem listOf?_map {α : Type} {item : Value → Option α} {value : α → Value}
    (h : ∀ x, item (value x) = some x) (xs : List α) :
    listOf? item (.list (xs.map value)) = some xs := by
  show (xs.map value).mapM item = some xs
  induction xs with
  | nil => rfl
  | cons x xs ih =>
    rw [List.map_cons, List.mapM_cons, h, ih]
    rfl

theorem listOf?_texts (texts : List String) :
    listOf? textOf? (.list (texts.map Value.text)) = some texts := by
  have htext : ∀ s, textOf? (.text s) = some s := fun _ ↦ rfl
  exact listOf?_map htext texts

theorem listOf?_contents (contents : List (Option String)) :
    listOf? (optionalOf? textOf?) (.list (contents.map (Value.ofOption .text))) = some contents := by
  refine listOf?_map (fun content ↦ ?_) contents
  cases content <;> rfl

theorem word32Of?_integer (n : UInt32) : word32Of? (.integer n.toNat) = some n := by
  have hrange : 0 ≤ (n.toNat : Int) ∧ (n.toNat : Int) < (UInt32.size : Nat) :=
    ⟨Int.natCast_nonneg _, Int.ofNat_lt.2 n.toNat_lt⟩
  rw [word32Of?, if_pos hrange, Int.toNat_natCast, UInt32.ofNat_toNat]

/-- The members of a document by key; fields that are absent have none. -/
theorem exists_toValue_eq_record (d : Document) :
    ∃ members, d.toValue = .record members ∧
      members.lookup "version" = some (.integer d.version.toNat) ∧
      members.lookup "file" = d.file.map Value.text ∧
      members.lookup "sourceRoot" = d.sourceRoot.map Value.text ∧
      members.lookup "sources" = some (.list (d.sources.map Value.text)) ∧
      members.lookup "sourcesContent" = d.sourcesContent.map
        (fun contents ↦ .list (contents.map (Value.ofOption Value.text))) ∧
      members.lookup "names" = some (.list (d.names.map Value.text)) ∧
      members.lookup "mappings" = some (.text d.mappings) := by
  obtain ⟨version, file, sourceRoot, sources, sourcesContent, names, mappings⟩ := d
  refine ⟨_, rfl, ?_⟩
  cases file <;> cases sourceRoot <;> cases sourcesContent <;> simp [List.lookup_cons]

theorem defaulted_text (o : Option String) :
    defaulted none (optionalOf? textOf?) (o.map Value.text) = some o := by
  cases o <;> rfl

theorem defaulted_contents (o : Option (List (Option String))) :
    defaulted none (optionalOf? (listOf? (optionalOf? textOf?)))
      (o.map fun contents ↦ .list (contents.map (Value.ofOption Value.text))) = some o := by
  cases o with
  | none => rfl
  | some contents =>
    show (listOf? (optionalOf? textOf?) _).map some = _
    rw [listOf?_contents]
    rfl

/-- A document is what its JSON value says. -/
theorem ofValue?_toValue (d : Document) : ofValue? d.toValue = some d := by
  obtain ⟨members, hmembers, hversion, hfile, hroot, hsources, hcontents, hnames, hmappings⟩ :=
    exists_toValue_eq_record d
  have hversion' : required word32Of? (members.lookup "version") = some d.version := by
    rw [hversion, required, Option.bind_some, word32Of?_integer]
  have hsources' : required (listOf? textOf?) (members.lookup "sources") = some d.sources := by
    rw [hsources]
    exact listOf?_texts d.sources
  have hnames' : defaulted [] (listOf? textOf?) (members.lookup "names") = some d.names := by
    rw [hnames]
    exact listOf?_texts d.names
  have hmappings' : required textOf? (members.lookup "mappings") = some d.mappings := by
    rw [hmappings]
    rfl
  rw [hmembers, ofValue?, ofFields?]
  simp only [hversion', hfile, hroot, hsources', hcontents, hnames', hmappings', defaulted_text,
    defaulted_contents, Option.bind_eq_bind, Option.bind_some]
  rfl

end Document

/-! ### Maps as documents -/

variable {m : SourceMap}

/-- Contents that are left out are read as absent. -/
theorem pairSources_nil {sources : List Source} (h : ∀ source ∈ sources, source.content = none) :
    pairSources (sources.map Source.path) [] = sources := by
  induction sources with
  | nil => rfl
  | cons source sources ih =>
    have hsource : ⟨source.path, none⟩ = source := by
      rw [← h source List.mem_cons_self]
    rw [List.map_cons, pairSources, hsource, ih fun s hs ↦ h s (List.mem_cons_of_mem source hs)]

theorem pairSources_toDocument (m : SourceMap) :
    pairSources m.toDocument.sources (m.toDocument.sourcesContent.getD []) = m.sources.toList := by
  by_cases hcontents : m.hasContents = true
  · rw [toDocument, if_pos hcontents]
    exact pairSources_map _
  · rw [toDocument, if_neg hcontents]
    refine pairSources_nil fun source hsource ↦ ?_
    rw [hasContents, Array.any_eq_true'] at hcontents
    -- contents are left out only if every one of them is absent
    have hnone : ¬ source.content.isSome = true :=
      fun hsome ↦ hcontents ⟨source, Array.mem_toList_iff.1 hsource, hsome⟩
    exact Option.not_isSome_iff_eq_none.1 hnone

/-- A well-formed map is what its document says. -/
theorem WellFormed.ofDocument_toDocument (h : m.WellFormed) : ofDocument m.toDocument = .ok m := by
  have hdecode : Mappings.decode m.toDocument.mappings = .ok (Mappings.ofSorted m.segments) :=
    Mappings.decode_encode_of_sorted h.sorted (fun s hs ↦ (h.valid s hs).line_ne_zero)
      fun s hs origin horigin ↦ ((h.valid s hs).origin origin horigin).line_ne_zero
  have hversion : ¬ m.toDocument.version ≠ supportedVersion := fun hne ↦ hne rfl
  rw [ofDocument, if_neg hversion, hdecode]
  refine ofParts_eq_ok_iff.2 ⟨?_, h.sorted, ?_⟩
  · simpa [toDocument] using h.valid
  · rw [ofTrusted, ofMappings, Mappings.toList_ofSorted, ← h.mappings_eq]
    simp only [pairSources_toDocument]
    rfl

theorem WellFormed.ofText_toText (h : m.WellFormed) : ofText m.toText = .ok m := by
  rw [ofText, ofOctets, toText, toValue, (Document.reads_toValue m.toDocument).decode_render]
  exact h.ofDocument_toDocument

theorem WellFormed.ofValue_toValue (h : m.WellFormed) : ofValue m.toValue = .ok m := by
  rw [ofValue, toValue, Document.ofValue?_toValue]
  exact h.ofDocument_toDocument

/-- Reads a map and writes it again. -/
def reserialize (octets : List UInt8) : Except Error String :=
  (ofOctets octets).map toText

/-- Reading and writing once more what was written changes nothing, and a text that is refused stays
refused. -/
theorem reserialize_bind_reserialize (octets : List UInt8) :
    ((reserialize octets).bind fun text ↦ reserialize (octetsOf text)) = reserialize octets := by
  cases hread : ofOctets octets with
  | error e =>
    rw [reserialize, hread]
    rfl
  | ok m =>
    have hwritten : reserialize octets = .ok m.toText := by
      rw [reserialize, hread]
      rfl
    have hagain : reserialize (octetsOf m.toText) = .ok m.toText := by
      rw [reserialize, ← ofText, (wellFormed_of_ofOctets hread).ofText_toText]
      rfl
    rw [hwritten, Except.bind]
    exact hagain

/-- A map that there is a way to reads back from its JSON text and from its JSON value, and writing
what was read is final. -/
theorem ofText_toText_of_obtainable (h : Obtainable m) :
    ofText m.toText = .ok m ∧ ofValue m.toValue = .ok m ∧
      ∀ octets,
        ((reserialize octets).bind fun text ↦ reserialize (octetsOf text)) = reserialize octets :=
  ⟨h.wellFormed.ofText_toText, h.wellFormed.ofValue_toValue, reserialize_bind_reserialize⟩

/-- A map with a tie, a line that is left out, a segment that was only generated, and texts that need
escapes. -/
def sampleEscaped : SourceMap :=
  (({} : Builder).performAll
    [.map ⟨3, 4⟩ "a\"\\\x01é" ⟨2, 0⟩ (some "\n😀"), .unmapped ⟨3, 4⟩, .map ⟨1, 9⟩ "b" ⟨7, 1⟩ none,
      .content 1 "\t\x7f", .root ""]).2.build

theorem ofText_toText_sampleEscaped :
    ofText sampleEscaped.toText = .ok sampleEscaped ∧
      ofValue sampleEscaped.toValue = .ok sampleEscaped ∧
      ((reserialize (octetsOf sampleEscaped.toText)).bind fun text ↦ reserialize (octetsOf text)) =
        reserialize (octetsOf sampleEscaped.toText) := by
  have hobtainable : Obtainable sampleEscaped := .build _ (by decide)
  obtain ⟨htext, hvalue, hfinal⟩ := ofText_toText_of_obtainable hobtainable
  exact ⟨htext, hvalue, hfinal (octetsOf sampleEscaped.toText)⟩

end SourceChain.SourceMap
