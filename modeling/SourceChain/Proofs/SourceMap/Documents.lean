import SourceChain.Proofs.Mappings.Decoding
import SourceChain.Proofs.SourceMap.Assembly
import SourceChain.SourceMap.Document

/-!
# Which documents are maps

A document that has the right shape is a map if it has the supported version, its mappings text is
read, and the segments of that text point at sources and names that the document has. Nothing else
is asked of it: the segments of a text that is read are in order and count lines from one
(`regular_of_decode`), so two of the checks that assembly makes never fail here
(`ofDocument_eq_error_iff`).

A document that is no map is refused for the first of these that fails (`Document.Refused`). The
indices are looked at after the text was read as a whole, so the first segment with a bad one is the
first in generated order, which need not be the first in the text.
-/

namespace SourceChain

/-- Whether the sources and names that a segment points at exist in a map with so many of them. -/
def Segment.PointsInto (sources names : Nat) (s : Segment) : Prop :=
  ∀ origin ∈ s.origin, origin.source.toNat < sources ∧ ∀ name ∈ origin.name, name.toNat < names

namespace Mappings

/-! ### What a mappings text is refused for -/

/-- Whether an error is one that comes from reading a text. The others are about segments that were
put together otherwise. -/
def Error.OfText : Error → Prop
  | .quantity _ => True
  | .fieldCount _ _ => True
  | .outOfRange _ _ _ => True
  | .position (.lineOutOfRange _) => True
  | _ => False

section Faults

variable {e : Error}

theorem ofText_of_mem_sumFaults {field : Field} {line : Nat} {places : List Place}
    (h : e ∈ sumFaults field line places) : e.OfText := by
  rw [sumFaults] at h
  split at h
  · cases h
  · obtain rfl := List.mem_singleton.1 h
    trivial

theorem ofText_of_mem_lineFaults {line : Nat} (h : e ∈ lineFaults line) : e.OfText := by
  rw [lineFaults] at h
  split at h
  · cases h
  · obtain rfl := List.mem_singleton.1 h
    trivial

theorem ofText_of_mem_originFaults {line : Nat} {places : List Place}
    (h : e ∈ originFaults line places) : e.OfText := by
  simp only [originFaults, List.mem_append] at h
  rcases h with ((h | h) | h) | h
  · exact ofText_of_mem_sumFaults h
  · exact ofText_of_mem_sumFaults h
  · exact ofText_of_mem_sumFaults h
  · exact ofText_of_mem_lineFaults h

/-- Whatever is wrong with a place is wrong with a text. -/
theorem ofText_of_mem_faultsAt {before : List Place} {place : Place}
    (h : e ∈ faultsAt before place) : e.OfText := by
  cases place with
  | start line =>
    rw [faultsAt] at h
    split at h
    · cases h
    · obtain rfl := List.mem_singleton.1 h
      trivial
  | piece line text =>
    rw [faultsAt] at h
    split at h
    next cause _ =>
      obtain rfl := List.mem_singleton.1 h
      trivial
    next values _ =>
      dsimp only at h
      split at h
      next =>
        simp only [List.mem_append] at h
        rcases h with ((h | h) | h) | h
        · exact ofText_of_mem_sumFaults h
        · exact ofText_of_mem_lineFaults h
        · split at h
          · exact ofText_of_mem_sumFaults h
          · cases h
        · split at h
          · exact ofText_of_mem_originFaults h
          · cases h
      next =>
        obtain rfl := List.mem_singleton.1 h
        trivial

theorem ofText_of_decode {text : String} (h : decode text = .error e) : e.OfText := by
  rw [decode_eq_verdict, verdict_eq_error_iff, head?_along_eq_some_iff] at h
  obtain ⟨front, place, rear, -, -, hfirst⟩ := h
  exact ofText_of_mem_faultsAt (List.mem_of_mem_head? hfirst)

end Faults

theorem regular_of_decode {text : String} {m : Mappings} (h : decode text = .ok m) :
    Regular m.toList :=
  (linesRead_of_decode h).2.regular

theorem Regular.lines_ne_zero {segments before after : List Segment} {s : Segment}
    (h : Regular segments) (hsplit : segments = before ++ s :: after) :
    s.generated.line ≠ 0 ∧ ∀ origin ∈ s.origin, origin.position.line ≠ 0 := by
  have hs : s ∈ segments := by
    rw [hsplit]
    exact List.mem_append_right before List.mem_cons_self
  exact ⟨h.line_ne_zero s hs, h.origin_line_ne_zero s hs⟩

/-- Where lines count from one, a segment promises only that its indices exist. -/
theorem Regular.valid_iff {segments : List Segment} (h : Regular segments) {s : Segment}
    (hs : s ∈ segments) {sources names : Nat} :
    s.Valid sources names ↔ s.PointsInto sources names := by
  constructor
  · intro hvalid origin horigin
    exact ⟨(hvalid.origin origin horigin).source_lt, (hvalid.origin origin horigin).name_lt⟩
  · intro hpoints
    refine ⟨h.line_ne_zero s hs, fun origin horigin ↦ ?_⟩
    obtain ⟨hsource, hname⟩ := hpoints origin horigin
    exact ⟨h.origin_line_ne_zero s hs origin horigin, hsource, hname⟩

end Mappings

namespace SourceMap

open Mappings (Regular)

/-! ### Documents -/

namespace Document

/-- The parts that a document has, with the segments of its mappings. -/
def parts (d : Document) (segments : List Segment) : Parts where
  file := d.file
  sourceRoot := d.sourceRoot
  paths := d.sources
  contents := d.sourcesContent.getD []
  names := d.names
  segments := segments

/-- A map that a document stands for. -/
structure Accepted (d : Document) (m : SourceMap) : Prop where
  /-- The document has the supported version. -/
  version : d.version = 3
  /-- The segments are those of its mappings text. -/
  mappings : Mappings.decode d.mappings = .ok m.mappings
  /-- The document has the sources and names that they point at. -/
  pointsInto : ∀ s ∈ m.segments, s.PointsInto d.sources.length d.names.length
  /-- The rest is as the document has it, with one slot for the content of each source. -/
  toParts : m.toParts =
    { d.parts m.segments with
      contents := (d.sourcesContent.getD []).takeD d.sources.length none }

/-- Why a document stands for no map. Each case has among its conditions that what is asked before
it holds. -/
inductive Refused (d : Document) : Error → Prop
  /-- It has another version. -/
  | version (hversion : d.version ≠ 3) : Refused d (.version d.version)
  /-- Its mappings text is not read. -/
  | mappings {cause : Mappings.Error} (hversion : d.version = 3)
      (hdecode : Mappings.decode d.mappings = .error cause) : Refused d (.mappings cause)
  /-- The first segment that points outside the document has a source that does not exist. -/
  | source {mappings : Mappings} {before after : List Segment} {s : Segment} {origin : Origin}
      (hversion : d.version = 3) (hdecode : Mappings.decode d.mappings = .ok mappings)
      (hsplit : mappings.toList = before ++ s :: after)
      (hbefore : ∀ t ∈ before, t.PointsInto d.sources.length d.names.length)
      (horigin : s.origin = some origin) (hsource : d.sources.length ≤ origin.source.toNat) :
      Refused d (.sourceIndex origin.source)
  /-- The first segment that points outside the document has a source that exists, and a name that
  does not. -/
  | name {mappings : Mappings} {before after : List Segment} {s : Segment} {origin : Origin}
      {index : UInt32} (hversion : d.version = 3)
      (hdecode : Mappings.decode d.mappings = .ok mappings)
      (hsplit : mappings.toList = before ++ s :: after)
      (hbefore : ∀ t ∈ before, t.PointsInto d.sources.length d.names.length)
      (horigin : s.origin = some origin) (hsource : origin.source.toNat < d.sources.length)
      (hindex : origin.name = some index) (hname : d.names.length ≤ index.toNat) :
      Refused d (.nameIndex index)

/-- What reading comes to, of a JSON text or a JSON value that is the given document. -/
inductive ReadTo (d : Document) : Except Error SourceMap → Prop
  /-- The document is what a JSON text says. -/
  | octets {octets : List UInt8} (h : Json.decode reader octets = .ok d) :
    ReadTo d (ofOctets octets)
  /-- The document is what a JSON value says. -/
  | value {v : Json.Value} (h : ofValue? v = some d) : ReadTo d (ofValue v)

end Document

section Documents

variable {d : Document} {m : SourceMap} {mappings : Mappings} {e : Error}

theorem Document.ReadTo.eq_ofDocument {result : Except Error SourceMap} (h : d.ReadTo result) :
    result = ofDocument d := by
  cases h with
  | octets h => rw [ofOctets, h]
  | value h => rw [ofValue, h]

theorem ofDocument_of_version (h : d.version ≠ 3) : ofDocument d = .error (.version d.version) :=
  if_pos h

theorem ofDocument_of_mappings_error (hversion : d.version = 3) {cause : Mappings.Error}
    (hdecode : Mappings.decode d.mappings = .error cause) :
    ofDocument d = .error (.mappings cause) := by
  have hsupported : ¬ d.version ≠ supportedVersion := fun hne ↦ hne hversion
  rw [ofDocument, if_neg hsupported, hdecode]

/-- A document whose mappings are read is assembled. -/
theorem ofDocument_of_mappings_ok (hversion : d.version = 3)
    (hdecode : Mappings.decode d.mappings = .ok mappings) :
    ofDocument d = ofParts (d.parts mappings.toList) := by
  have hsupported : ¬ d.version ≠ supportedVersion := fun hne ↦ hne hversion
  rw [ofDocument, if_neg hsupported, hdecode]
  rfl

/-- A document is of another version, or its mappings are refused, or it is assembled. -/
theorem ofDocument_cases (d : Document) :
    d.version ≠ 3 ∨ d.version = 3 ∧ ((∃ cause, Mappings.decode d.mappings = .error cause) ∨
      ∃ mappings, Mappings.decode d.mappings = .ok mappings) := by
  by_cases hversion : d.version = 3
  · refine .inr ⟨hversion, ?_⟩
    cases hdecode : Mappings.decode d.mappings with
    | error cause => exact .inl ⟨cause, rfl⟩
    | ok mappings => exact .inr ⟨mappings, rfl⟩
  · exact .inl hversion

/-- Segments of a text are assembled if they point at what the document has. -/
theorem ofParts_parts_eq_ok_iff (hregular : Regular mappings.toList) :
    ofParts (d.parts mappings.toList) = .ok m ↔
      (∀ s ∈ mappings.toList, s.PointsInto d.sources.length d.names.length) ∧
        m = ofTrusted (d.parts mappings.toList) := by
  rw [ofParts_eq_ok_iff]
  constructor
  · rintro ⟨hvalid, -, rfl⟩
    exact ⟨fun s hs ↦ (hregular.valid_iff hs).1 (hvalid s hs), rfl⟩
  · rintro ⟨hpoints, rfl⟩
    exact ⟨fun s hs ↦ (hregular.valid_iff hs).2 (hpoints s hs), hregular.sorted, rfl⟩

/-- Segments of a text are refused for an index that does not exist, and for nothing else. -/
theorem breaks_of_ofParts_parts (hregular : Regular mappings.toList)
    (h : ofParts (d.parts mappings.toList) = .error e) :
    ∃ before s after, mappings.toList = before ++ s :: after ∧
      (∀ t ∈ before, t.PointsInto d.sources.length d.names.length) ∧
      s.Breaks d.sources.length d.names.length e := by
  rcases ofParts_eq_error_iff.1 h with
    ⟨before, s, after, hsplit, hbefore, hs⟩ | ⟨-, before, a, b, after, hsplit, -, hlt, -⟩
  · refine ⟨before, s, after, hsplit, fun t ht ↦ ?_, hs⟩
    have hmem : t ∈ mappings.toList := by
      rw [show mappings.toList = _ from hsplit]
      exact List.mem_append_left _ ht
    exact (hregular.valid_iff hmem).1 (hbefore t ht)
  · have hsorted := hregular.sorted
    rw [show mappings.toList = _ from hsplit] at hsorted
    have hle := List.rel_of_pairwise_cons (List.pairwise_append.1 hsorted).2.1
      (List.mem_cons_self (a := b))
    exact absurd hlt (Position.not_lt.2 hle)

theorem ofParts_parts_of_breaks (hregular : Regular mappings.toList) {before after : List Segment}
    {s : Segment} (hsplit : mappings.toList = before ++ s :: after)
    (hbefore : ∀ t ∈ before, t.PointsInto d.sources.length d.names.length)
    (hs : s.Breaks d.sources.length d.names.length e) :
    ofParts (d.parts mappings.toList) = .error e := by
  refine ofParts_eq_error_iff.2 (.inl ⟨before, s, after, hsplit, fun t ht ↦ ?_, hs⟩)
  have hmem : t ∈ mappings.toList := by
    rw [hsplit]
    exact List.mem_append_left _ ht
  exact (hregular.valid_iff hmem).2 (hbefore t ht)

/-! ### Acceptance and refusal -/

theorem accepted_of_ofDocument (h : ofDocument d = .ok m) : d.Accepted m := by
  rcases ofDocument_cases d with
    hversion | ⟨hversion, ⟨cause, hdecode⟩ | ⟨mappings, hdecode⟩⟩
  · rw [ofDocument_of_version hversion] at h
    cases h
  · rw [ofDocument_of_mappings_error hversion hdecode] at h
    cases h
  · have hregular := Mappings.regular_of_decode hdecode
    rw [ofDocument_of_mappings_ok hversion hdecode, ofParts_parts_eq_ok_iff hregular] at h
    obtain ⟨hpoints, hm⟩ := h
    obtain ⟨hparts, hmappings⟩ := eq_ofTrusted_iff.1 hm
    have hsame : m.mappings = mappings := by
      rw [hmappings]
      exact (Mappings.linesRead_of_decode hdecode).1.symm
    refine ⟨hversion, hsame ▸ hdecode, ?_, ?_⟩
    · rw [segments, hsame]
      exact hpoints
    · rw [hparts, segments, hsame]
      rfl

theorem Document.Accepted.ofDocument_eq (h : d.Accepted m) : ofDocument d = .ok m := by
  have hregular := Mappings.regular_of_decode h.mappings
  rw [ofDocument_of_mappings_ok h.version h.mappings, ofParts_parts_eq_ok_iff hregular]
  refine ⟨h.pointsInto, eq_ofTrusted_iff.2 ⟨h.toParts, ?_⟩⟩
  exact (Mappings.linesRead_of_decode h.mappings).1

theorem ofDocument_eq_ok_iff : ofDocument d = .ok m ↔ d.Accepted m :=
  ⟨accepted_of_ofDocument, Document.Accepted.ofDocument_eq⟩

/-- What is refused fails in one of four ways. -/
theorem refused_of_ofDocument (h : ofDocument d = .error e) : d.Refused e := by
  rcases ofDocument_cases d with
    hversion | ⟨hversion, ⟨cause, hdecode⟩ | ⟨mappings, hdecode⟩⟩
  · rw [ofDocument_of_version hversion] at h
    obtain rfl := Except.error.inj h
    exact .version hversion
  · rw [ofDocument_of_mappings_error hversion hdecode] at h
    obtain rfl := Except.error.inj h
    exact .mappings hversion hdecode
  · have hregular := Mappings.regular_of_decode hdecode
    rw [ofDocument_of_mappings_ok hversion hdecode] at h
    obtain ⟨before, s, after, hsplit, hbefore, hs⟩ := breaks_of_ofParts_parts hregular h
    obtain ⟨hlineNe, horiginLineNe⟩ := hregular.lines_ne_zero hsplit
    cases hs with
    | line hline => exact absurd hline hlineNe
    | source _ horigin hsource => exact .source hversion hdecode hsplit hbefore horigin hsource
    | originLine _ horigin _ hposition => exact absurd hposition (horiginLineNe _ horigin)
    | name _ horigin hsource _ hindex hname =>
      exact .name hversion hdecode hsplit hbefore horigin hsource hindex hname

theorem Document.Refused.ofDocument_eq (h : d.Refused e) : ofDocument d = .error e := by
  cases h with
  | version hversion => exact ofDocument_of_version hversion
  | mappings hversion hdecode => exact ofDocument_of_mappings_error hversion hdecode
  | source hversion hdecode hsplit hbefore horigin hsource =>
    have hregular := Mappings.regular_of_decode hdecode
    rw [ofDocument_of_mappings_ok hversion hdecode]
    exact ofParts_parts_of_breaks hregular hsplit hbefore
      (.source (hregular.lines_ne_zero hsplit).1 horigin hsource)
  | name hversion hdecode hsplit hbefore horigin hsource hindex hname =>
    have hregular := Mappings.regular_of_decode hdecode
    obtain ⟨hline, horiginLine⟩ := hregular.lines_ne_zero hsplit
    rw [ofDocument_of_mappings_ok hversion hdecode]
    exact ofParts_parts_of_breaks hregular hsplit hbefore
      (.name hline horigin hsource (horiginLine _ horigin) hindex hname)

/-- A document is refused for its version, or else for its mappings, or else for the first segment
that points outside it. -/
theorem ofDocument_eq_error_iff : ofDocument d = .error e ↔ d.Refused e :=
  ⟨refused_of_ofDocument, Document.Refused.ofDocument_eq⟩

end Documents

/-- A document that is read gives a map exactly if it has the supported version, its mappings text
is read, and every segment of the text points at a source and a name that the document has. The map
then has just those segments. Otherwise the document is refused for the first of these that fails;
that segments are out of order, or that a line is zero, is never among the reasons. -/
theorem document_accepted_or_refused {d : Document} {result : Except Error SourceMap}
    (h : d.ReadTo result) :
    ((∃ m, result = .ok m) ↔ d.version = 3 ∧ ∃ mappings,
        Mappings.decode d.mappings = .ok mappings ∧
          ∀ s ∈ mappings.toList, s.PointsInto d.sources.length d.names.length) ∧
      (∀ m, result = .ok m ↔ d.Accepted m) ∧
      (∀ e, result = .error e ↔ d.Refused e) ∧
      (∀ previous current, result ≠ .error (.mappings (.unordered previous current))) ∧
      result ≠ .error (.mappings (.position .zeroLine)) ∧
      ∀ cause, result ≠ .error (.position cause) := by
  have htext : ∀ cause, ofDocument d = .error (.mappings cause) → cause.OfText := by
    intro cause hrefused
    obtain - | ⟨-, hdecode⟩ := ofDocument_eq_error_iff.1 hrefused
    exact Mappings.ofText_of_decode hdecode
  rw [h.eq_ofDocument]
  refine ⟨⟨?_, ?_⟩, fun m ↦ ofDocument_eq_ok_iff, fun e ↦ ofDocument_eq_error_iff,
    fun previous current ↦ htext _, htext _, fun cause hrefused ↦ ?_⟩
  · rintro ⟨m, hm⟩
    have haccepted := accepted_of_ofDocument hm
    exact ⟨haccepted.version, m.mappings, haccepted.mappings, haccepted.pointsInto⟩
  · rintro ⟨hversion, mappings, hdecode, hpoints⟩
    have hregular := Mappings.regular_of_decode hdecode
    refine ⟨ofTrusted (d.parts mappings.toList), ?_⟩
    rw [ofDocument_of_mappings_ok hversion hdecode, ofParts_parts_eq_ok_iff hregular]
    exact ⟨hpoints, rfl⟩
  · cases ofDocument_eq_error_iff.1 hrefused

/-- Two segments that point outside the document. The one that stands first in the text comes last
in generated order. -/
def sampleMisplaced : Document where
  version := 3
  file := none
  sourceRoot := none
  sources := ["a"]
  sourcesContent := none
  names := []
  mappings := "ICAA,FDAAA"

/-- The segment at column two is refused for its name, before the one at column four is for its
source. -/
theorem document_sampleMisplaced_refused :
    sampleMisplaced.ReadTo (ofValue sampleMisplaced.toValue) ∧
      sampleMisplaced.Refused (.nameIndex 0) ∧
      ofValue sampleMisplaced.toValue = .error (.nameIndex 0) := by
  have hread : sampleMisplaced.ReadTo (ofValue sampleMisplaced.toValue) := .value (by decide)
  let named : Segment := ⟨⟨1, 2⟩, some ⟨0, ⟨1, 0⟩, some 0⟩⟩
  let mapped : Segment := ⟨⟨1, 4⟩, some ⟨1, ⟨1, 0⟩, none⟩⟩
  have hline : Mappings.decodeLine 0 {} "ICAA,FDAAA".toList = .ok ([named, mapped], {}) := by
    have hpieces : Mappings.decodePieces 0 #[] 0 {} ("ICAA,FDAAA".toList.splitOn ',') =
        .ok (#[mapped, named], {}) := by decide +kernel
    rw [Mappings.decodeLine_eq, hpieces]
    simp [List.mergeSort, List.MergeSort.Internal.splitInTwo, mapped, named]
  have hdecode : Mappings.decode "ICAA,FDAAA" = .ok (Mappings.ofSorted [named, mapped]) := by
    have hlines : "ICAA,FDAAA".toList.splitOn ';' = ["ICAA,FDAAA".toList] := by decide +kernel
    rw [Mappings.decode_eq, Mappings.decodeSegments_eq, hlines,
      Mappings.decodeLines_of_decodeLine (by decide) hline]
    rfl
  have hrefused : sampleMisplaced.Refused (.nameIndex 0) :=
    .name rfl hdecode (List.nil_append [named, mapped]).symm (List.forall_mem_nil _) rfl
      (by decide) rfl (by decide)
  exact ⟨hread, hrefused, ((document_accepted_or_refused hread).2.2.1 _).2 hrefused⟩

end SourceMap

end SourceChain
