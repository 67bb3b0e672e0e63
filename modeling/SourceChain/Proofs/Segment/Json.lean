import SourceChain.Segment.Json
import SourceChain.Proofs.Json.Slot
import SourceChain.Proofs.Position.Text
import SourceChain.Proofs.SourceMap.WellFormed

/-!
# Lines of the positions that are read

Positions, origins and segments read back from their JSON texts, whatever they hold: each is a
record whose members its fields collect (`Segment.reads_toValue`). So there is no position that JSON
keeps out. More than that, the line of a position stands in its text as a number that any other may
replace (`Position.hasPlace_line`, `Segment.hasPlace_originLine`): whatever the text is like,
nothing in the readers asks for a line counted from one, and one that is read is counted from one
exactly if no zero stands in such a place (`Segment.lines_of_read`). The text form refuses line
zero.

A map that is assembled is free of line zero all the same, as assembly checks the lines by itself:
some map holds a segment exactly if its lines are counted from one (`Segment.linesFromOne_iff`).
-/

namespace SourceChain

open Json (Value octetsOf decode found LocalAt)
open Json.Reader

/-! ### Records that read back -/

theorem Position.reads_toValue (p : Position) : Reads reader p p.toValue :=
  (((reads_word32 p.line).collects rfl rfl rfl).append
    ((reads_word32 p.column).collects rfl rfl rfl)).reads_record rfl

theorem Origin.reads_toValue (origin : Origin) : Reads reader origin origin.toValue := by
  have hname : Reads (optional word32) origin.name
      (.ofOption word32Value origin.name) :=
    .optional (fun index _ ↦ reads_word32 index) fun _ ↦ Value.noConfusion
  exact (((reads_word32 origin.source).collects rfl rfl rfl).append
    ((origin.position.reads_toValue.collects rfl rfl rfl).append
      (hname.collects rfl rfl rfl))).reads_record rfl

theorem Segment.reads_toValue (s : Segment) : Reads reader s s.toValue := by
  have horigin : Reads (optional Origin.reader) s.origin
      (.ofOption Origin.toValue s.origin) :=
    .optional (fun origin _ ↦ origin.reads_toValue) fun _ ↦ Value.noConfusion
  exact ((s.generated.reads_toValue.collects rfl rfl rfl).append
    (horigin.collects rfl rfl rfl)).reads_record rfl

/-! ### Lines counted from one -/

/-- The lines of a segment are counted from one, and so is the line of its origin if it has one. -/
def Segment.LinesFromOne (s : Segment) : Prop :=
  1 ≤ s.generated.line.toNat ∧ ∀ origin ∈ s.origin, 1 ≤ origin.position.line.toNat

/-- A segment with its lines counted from one keeps its promise where no index is out of range. -/
theorem Segment.LinesFromOne.valid {s : Segment} (h : s.LinesFromOne) :
    s.Valid UInt32.size UInt32.size where
  line_ne_zero := Position.one_le_toNat_iff.1 h.1
  origin origin horigin :=
    { line_ne_zero := Position.one_le_toNat_iff.1 (h.2 origin horigin)
      source_lt := origin.source.toNat_lt
      name_lt := fun name _ ↦ name.toNat_lt }

/-- Some map is assembled with a segment in it exactly if its lines are counted from one. -/
theorem Segment.linesFromOne_iff {s : Segment} :
    s.LinesFromOne ↔ ∃ parts m, SourceMap.ofParts parts = .ok m ∧ s ∈ m.segments := by
  constructor
  · intro h
    -- a map with as many sources and names as there are indices holds the segment alone
    let texts := List.replicate UInt32.size ""
    have hlength : texts.length = UInt32.size := List.length_replicate
    refine ⟨{ paths := texts, names := texts, segments := [s] }, _,
      SourceMap.ofParts_eq_ok_iff.2 ⟨?_, List.pairwise_singleton _ _, rfl⟩,
      List.mem_singleton_self _⟩
    rw [hlength, List.forall_mem_singleton]
    exact h.valid
  · rintro ⟨parts, m, hparts, hs⟩
    have hvalid := (SourceMap.wellFormed_of_ofParts hparts).valid s hs
    exact ⟨Position.one_le_toNat_iff.2 hvalid.line_ne_zero, fun origin horigin ↦
      Position.one_le_toNat_iff.2 (hvalid.origin origin horigin).line_ne_zero⟩

/-- A position is read from its text form exactly if its line is counted from one. -/
theorem Position.exists_parse_eq_ok_iff {p : Position} :
    (∃ text, parse text = .ok p) ↔ 1 ≤ p.line.toNat :=
  ⟨fun ⟨_, h⟩ ↦ (parse_eq_ok_iff.1 h).2, fun h ↦ ⟨_, parse_toString h⟩⟩

/-- Reading the text of a position gives it back, on line zero as well. -/
theorem Position.decode_render (p : Position) : decode reader (octetsOf p.toValue.render) = .ok p :=
  p.reads_toValue.decode_render

/-- Reading the text of a segment gives it back, on line zero as well. -/
theorem Segment.decode_render (s : Segment) : decode reader (octetsOf s.toValue.render) = .ok s :=
  s.reads_toValue.decode_render

/-! ### Lines in their places -/

theorem Position.localAt_reader (s : List UInt8) : LocalAt (fun s ↦ found (reader s)) s :=
  localAt_record (.cons localAt_word32 (.cons localAt_word32 localFields_nil)) _ s

theorem Origin.localAt_reader (s : List UInt8) : LocalAt (fun s ↦ found (reader s)) s :=
  localAt_record (.cons localAt_word32 (.cons Position.localAt_reader
    (.cons (localAt_optional skipsBlanks_word32 localAt_word32) localFields_nil))) _ s

/-- Any number may stand where the line of a position is read. -/
theorem Position.hasPlace_line :
    HasPlace reader (fun p ↦ some p.line) fun line p ↦ { p with line } := by
  refine Slot.hasPlace (?slot : Slot _ "line" false word32 (·.1) fun x p ↦ (some x, p.2))
    hasPlace_word32 rfl ?finish
  case slot =>
    exact {
      exists_split := ⟨[], _, rfl, List.forall_mem_singleton.2
        ⟨by decide, Field.apart_of (fun _ _ ↦ rfl) (fun _ _ _ ↦ rfl) fun _ _ ↦ rfl⟩⟩
      get_store _ _ := rfl
      store_store _ _ _ := rfl
      localFields := .cons localAt_word32 (.cons localAt_word32 localFields_nil) }
  case finish =>
    rintro ⟨- | line, - | column⟩ p w ⟨⟩ ⟨⟩
    exact ⟨_, rfl, rfl, fun _ ↦ rfl⟩

/-- Any number may stand where the line of an origin is read. -/
theorem Origin.hasPlace_line :
    HasPlace reader (fun origin ↦ some origin.position.line)
      fun line origin ↦ { origin with position.line := line } := by
  refine Slot.hasPlace
    (?slot : Slot _ "position" false Position.reader (·.2.1) fun x p ↦ (p.1, some x, p.2.2))
    Position.hasPlace_line rfl ?finish
  case slot =>
    exact {
      exists_split := ⟨[_], [_], rfl, List.forall_mem_cons.2
        ⟨⟨by decide, Field.apart_of (fun _ _ ↦ rfl) (fun _ _ _ ↦ rfl) fun _ _ ↦ rfl⟩,
          List.forall_mem_singleton.2
            ⟨by decide, Field.apart_of (fun _ _ ↦ rfl) (fun _ _ _ ↦ rfl) fun _ _ ↦ rfl⟩⟩⟩
      get_store _ _ := rfl
      store_store _ _ _ := rfl
      localFields := .cons localAt_word32 (.cons Position.localAt_reader
        (.cons (localAt_optional skipsBlanks_word32 localAt_word32) localFields_nil)) }
  case finish =>
    rintro ⟨- | source, - | position, name⟩ origin w ⟨⟩ ⟨⟩
    exact ⟨_, rfl, rfl, fun _ ↦ rfl⟩

/-- Any number may stand where the line of a segment is read. -/
theorem Segment.hasPlace_line :
    HasPlace reader (fun s ↦ some s.generated.line) fun line s ↦
      { s with generated.line := line } := by
  refine Slot.hasPlace
    (?slot : Slot _ "generated" false Position.reader (·.1) fun x p ↦ (some x, p.2))
    Position.hasPlace_line rfl ?finish
  case slot =>
    exact {
      exists_split := ⟨[], _, rfl, List.forall_mem_singleton.2
        ⟨by decide, Field.apart_of (fun _ _ ↦ rfl) (fun _ _ _ ↦ rfl) fun _ _ ↦ rfl⟩⟩
      get_store _ _ := rfl
      store_store _ _ _ := rfl
      localFields := .cons Position.localAt_reader
        (.cons (localAt_optional skipsBlanks_record Origin.localAt_reader) localFields_nil) }
  case finish =>
    rintro ⟨- | generated, origin⟩ s w ⟨⟩ ⟨⟩
    exact ⟨_, rfl, rfl, fun _ ↦ rfl⟩

/-- Any number may stand where the line of a segment's origin is read, if it has one. -/
theorem Segment.hasPlace_originLine :
    HasPlace reader (fun s ↦ s.origin.map (·.position.line)) fun line s ↦
      { s with origin := s.origin.map fun origin ↦ { origin with position.line := line } } := by
  refine Slot.hasPlace
    (?slot : Slot _ "original" false (optional Origin.reader) (·.2) fun x p ↦ (p.1, some x))
    (hasPlace_optional skipsBlanks_record Origin.hasPlace_line) rfl ?finish
  case slot =>
    exact {
      exists_split := ⟨[_], [], rfl, List.forall_mem_singleton.2
        ⟨by decide, Field.apart_of (fun _ _ ↦ rfl) (fun _ _ _ ↦ rfl) fun _ _ ↦ rfl⟩⟩
      get_store _ _ := rfl
      store_store _ _ _ := rfl
      localFields := .cons Position.localAt_reader
        (.cons (localAt_optional skipsBlanks_record Origin.localAt_reader) localFields_nil) }
  case finish =>
    rintro ⟨- | generated, - | - | origin⟩ s w ⟨⟩ ⟨⟩
    exact ⟨_, rfl, rfl, fun _ ↦ rfl⟩

/-! ### Lines that are read -/

/-- When the lines that are read from a text are counted from one: in the text form they always are.
In JSON the line of a position is, unless a zero stands where any number would be its line, and the
lines of a segment are, unless a zero stands where any number would be one of them. -/
theorem Segment.lines_of_read (text : String) :
    (∀ p, Position.parse text = .ok p → 1 ≤ p.line.toNat) ∧
    ((∀ p, decode Position.reader (octetsOf text) = .ok p → 1 ≤ p.line.toNat) ↔
      ∀ before after, text = before ++ "0" ++ after →
        ¬ TakesAny Position.reader (fun p ↦ some p.line) before after) ∧
    ((∀ s, decode Segment.reader (octetsOf text) = .ok s → s.LinesFromOne) ↔
      ∀ before after, text = before ++ "0" ++ after →
        ¬ TakesAny Segment.reader (fun s ↦ some s.generated.line) before after ∧
        ¬ TakesAny Segment.reader (fun s ↦ s.origin.map (·.position.line)) before after) := by
  have hposition := Position.hasPlace_line.one_le_iff (fun _ _ _ _ ↦ rfl) text
  have hgenerated := Segment.hasPlace_line.one_le_iff (fun _ _ _ _ ↦ rfl) text
  have horigin := Segment.hasPlace_originLine.one_le_iff
    (fun s w w' h ↦ by
      obtain ⟨origin, horigin, -⟩ := Option.map_eq_some_iff.1 h
      simp [horigin]) text
  refine ⟨fun p h ↦ (Position.parse_eq_ok_iff.1 h).2, by simpa using hposition, ?_⟩
  constructor
  · intro h before after htext
    exact ⟨hgenerated.1 (fun s hs w hw ↦ Option.some.inj hw ▸ (h s hs).1) before after htext,
      horigin.1 (fun s hs w hw ↦ by
        obtain ⟨origin, horigin, rfl⟩ := Option.map_eq_some_iff.1 hw
        exact (h s hs).2 origin horigin) before after htext⟩
  · intro h s hs
    exact ⟨hgenerated.2 (fun before after htext ↦ (h before after htext).1) s hs _ rfl,
      fun origin hmem ↦ horigin.2 (fun before after htext ↦ (h before after htext).2) s hs _
        (Option.map_eq_some_iff.2 ⟨origin, hmem, rfl⟩)⟩

/-- A zero for the column is none for the line: the line of a position at column zero is counted from
one, and no number could be read as the line where the zero stands. -/
theorem Segment.lines_of_read_columnZero :
    Position.parse "3:0" = .ok ⟨3, 0⟩ ∧ 1 ≤ (⟨3, 0⟩ : Position).line.toNat ∧
      decode Position.reader (octetsOf "[3,0]") = .ok ⟨3, 0⟩ ∧
      ∀ before after, "[3,0]" = before ++ "0" ++ after →
        ¬ TakesAny Position.reader (fun p ↦ some p.line) before after := by
  have hparse : Position.parse "3:0" = .ok ⟨3, 0⟩ := by decide +kernel
  have hdecode : decode Position.reader (octetsOf "[3,0]") = .ok ⟨3, 0⟩ := by decide +kernel
  refine ⟨hparse, (lines_of_read "3:0").1 _ hparse, hdecode, ?_⟩
  refine (lines_of_read "[3,0]").2.1.1 fun p hp ↦ ?_
  obtain rfl := Except.ok.inj (hdecode.symm.trans hp)
  decide

/-- Line zero is read from JSON, as the line of a position and as that of an origin, so the lines that
are read are not all counted from one. -/
theorem Segment.lineZero_of_decode :
    decode Position.reader (octetsOf "\x7b\"line\":0,\"column\":0\x7d") = .ok ⟨0, 0⟩ ∧
      decode Segment.reader (octetsOf "[[1,0],[0,[0,0],null]]") =
        .ok ⟨⟨1, 0⟩, some ⟨0, ⟨0, 0⟩, none⟩⟩ ∧
      ¬ ∀ text,
        (∀ p, Position.parse text = .ok p → 1 ≤ p.line.toNat) ∧
        (∀ p, decode Position.reader (octetsOf text) = .ok p → 1 ≤ p.line.toNat) ∧
        ∀ s, decode Segment.reader (octetsOf text) = .ok s → s.LinesFromOne := by
  have hposition : decode Position.reader
      (octetsOf "\x7b\"line\":0,\"column\":0\x7d") = .ok ⟨0, 0⟩ := by decide +kernel
  have hsegment : decode Segment.reader (octetsOf "[[1,0],[0,[0,0],null]]") =
      .ok ⟨⟨1, 0⟩, some ⟨0, ⟨0, 0⟩, none⟩⟩ := by decide +kernel
  refine ⟨hposition, hsegment, fun h ↦ ?_⟩
  obtain ⟨-, hlines, -⟩ := h "\x7b\"line\":0,\"column\":0\x7d"
  exact absurd (hlines _ hposition) (by decide)

end SourceChain
