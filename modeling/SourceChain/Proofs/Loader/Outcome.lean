import SourceChain.Loader
import SourceChain.Proofs.SourceMap.Obtainable

/-!
# What loading a file comes to

A loader can fail in five ways, and it can succeed with a map or without one. `Outcome` says when
each of these happens, for a stage that answers in any way at all, and which calls of the stage it
takes. Each outcome has among its conditions that what is asked before it did not fail, so the order
of the checks can be read off, and there is exactly one outcome (`exists_outcome`,
`Outcome.unique`).

That outcome is what the loader does (`load_comes_to_outcome`). The stage is called at most once,
and with nothing but the code and the path of the request. Only an attached map that cannot be read,
with source maps on, keeps the loader from calling it.

The conditions on the map of the stage are about its segments, not about what the loader computes
from them. The last segment lies on the highest line because a map that was read is well-formed
(`SourceMap.WellFormed.lastLine_eq_iff`), and the number of lines, which the loader cuts off at 32
bits, is the true one wherever a segment lies past it (`lineWord_lt_iff`).
-/

namespace SourceChain

namespace SourceMap

/-! ### The last line of a map -/

variable {m : SourceMap}

/-- No segment of a well-formed map lies past its last line. -/
theorem WellFormed.line_le_lastLine (h : m.WellFormed) {s : Segment} (hs : s ∈ m.segments) :
    s.generated.line ≤ m.mappings.lastLine := by
  rw [h.mappings_eq, Mappings.lastLine_ofSorted]
  exact UInt32.le_iff_toNat_le.2 (h.sorted.line_le_lastLineOf hs)

/-- A last line that is past some number is that of a segment. -/
theorem exists_line_eq_lastLine {n : Nat} (h : n < m.mappings.lastLine.toNat) :
    ∃ s ∈ m.segments, s.generated.line = m.mappings.lastLine := by
  rw [Mappings.lastLine] at h ⊢
  split at h
  next s hs =>
    have hmem : s ∈ m.segments := Array.mem_toList_iff.2 (Array.mem_of_back? hs)
    exact ⟨s, hmem, rfl⟩
  next => exact absurd h (Nat.not_lt_zero n)

/-- The last line is the highest one that has a segment. -/
theorem WellFormed.lastLine_eq_iff (h : m.WellFormed) {s : Segment} (hs : s ∈ m.segments) :
    m.mappings.lastLine = s.generated.line ↔
      ∀ t ∈ m.segments, t.generated.line ≤ s.generated.line := by
  refine ⟨fun hlast t ht ↦ hlast ▸ h.line_le_lastLine ht, fun hhighest ↦ ?_⟩
  have hle := UInt32.le_iff_toNat_le.1 (h.line_le_lastLine hs)
  have hpos : 0 < s.generated.line.toNat :=
    UInt32.lt_iff_toNat_lt.1 (UInt32.pos_iff_ne_zero.2 (h.valid s hs).line_ne_zero)
  obtain ⟨t, ht, hlast⟩ := exists_line_eq_lastLine (Nat.lt_of_lt_of_le hpos hle)
  rw [← hlast] at hle ⊢
  exact UInt32.toNat_inj.1 (Nat.le_antisymm (UInt32.le_iff_toNat_le.1 (hhighest t ht)) hle)

end SourceMap

namespace Loader

/-! ### The check of a stage map -/

/-- What the check of a stage map against the code and the path refuses. -/
inductive Refused (stage : SourceMap) (code path : String) : Error → Prop
  /-- The map names another file. -/
  | bufferMismatch {file : String} (hfile : stage.file = some file) (hne : file ≠ path) :
      Refused stage code path (.bufferMismatch path file)
  /-- The map names the file or none, and the highest line that has a segment is past the end of the
  code. -/
  | lineOutOfRange {s : Segment} {lines : UInt32} (hfile : ∀ file ∈ stage.file, file = path)
      (hs : s ∈ stage.segments)
      (hhighest : ∀ t ∈ stage.segments, t.generated.line ≤ s.generated.line)
      (hlines : lines.toNat = code.toList.count '\n' + 1) (hlt : lines < s.generated.line) :
      Refused stage code path (.lineOutOfRange s.generated.line lines)

/-- What the check of a stage map against the code and the path lets pass. -/
structure Accepted (stage : SourceMap) (code path : String) : Prop where
  /-- The map names the file or none. -/
  file : ∀ file ∈ stage.file, file = path
  /-- No segment lies past the end of the code. -/
  line_le : ∀ s ∈ stage.segments, s.generated.line.toNat ≤ code.toList.count '\n' + 1

theorem toNat_lineWord (code : String) :
    (lineWord code).toNat = min (lineCount code) (UInt32.size - 1) :=
  UInt32.toNat_ofNat_of_lt' (Nat.lt_of_le_of_lt (Nat.min_le_right _ _) (by decide))

/-- Cutting the number of lines off at 32 bits changes nothing for a line that lies past it. -/
theorem lineWord_lt_iff {code : String} {line : UInt32} :
    lineWord code < line ↔ lineCount code < line.toNat := by
  have hline : line.toNat ≤ UInt32.size - 1 := Nat.le_sub_one_of_lt line.toNat_lt_size
  rw [UInt32.lt_iff_toNat_lt, toNat_lineWord]
  omega

theorem toNat_lineWord_of_lt {code : String} {line : UInt32} (h : lineCount code < line.toNat) :
    (lineWord code).toNat = lineCount code := by
  have hline : line.toNat ≤ UInt32.size - 1 := Nat.le_sub_one_of_lt line.toNat_lt_size
  rw [toNat_lineWord]
  omega

variable {stage : SourceMap} {code path : String}

/-- A map that names the file or none is checked for its last line. -/
theorem checkStage_of_file (hfile : ∀ file ∈ stage.file, file = path) :
    checkStage stage code path =
      if lineWord code < stage.mappings.lastLine then
        .error (.lineOutOfRange stage.mappings.lastLine (lineWord code))
      else .ok () := by
  have hmismatch : stage.file.filter (· ≠ path) = none :=
    Option.filter_eq_none_iff.2 fun file hmem ↦ by simpa using hfile file hmem
  rw [checkStage, hmismatch]

theorem Refused.checkStage_eq (hstage : stage.WellFormed) {e : Error}
    (h : Refused stage code path e) : checkStage stage code path = .error e := by
  cases h with
  | @bufferMismatch file hfile hne =>
    have hmismatch : stage.file.filter (· ≠ path) = some file :=
      Option.filter_eq_some_iff.2 ⟨hfile, decide_eq_true hne⟩
    rw [checkStage, hmismatch]
  | lineOutOfRange hfile hs hhighest hlines hlt =>
    have hcount : lineCount code < _ := hlines ▸ UInt32.lt_iff_toNat_lt.1 hlt
    have hword := UInt32.toNat_inj.1 ((toNat_lineWord_of_lt hcount).trans hlines.symm)
    rw [checkStage_of_file hfile, (hstage.lastLine_eq_iff hs).2 hhighest,
      if_pos (lineWord_lt_iff.2 hcount), hword]

theorem Accepted.checkStage_eq (h : Accepted stage code path) :
    checkStage stage code path = .ok () := by
  rw [checkStage_of_file h.file, if_neg]
  intro hlt
  have hcount := lineWord_lt_iff.1 hlt
  obtain ⟨s, hs, hlast⟩ := SourceMap.exists_line_eq_lastLine hcount
  rw [← hlast] at hcount
  exact absurd (h.line_le s hs) (Nat.not_le.2 hcount)

/-- A map that was read is refused for some reason, or accepted. -/
theorem refused_or_accepted (hstage : stage.WellFormed) (code path : String) :
    (∃ e, Refused stage code path e) ∨ Accepted stage code path := by
  by_cases hfile : ∀ file ∈ stage.file, file = path
  · by_cases hlines : ∀ s ∈ stage.segments, s.generated.line.toNat ≤ lineCount code
    · exact .inr ⟨hfile, hlines⟩
    · push Not at hlines
      obtain ⟨s, hs, hlt⟩ := hlines
      have hlast : lineCount code < stage.mappings.lastLine.toNat :=
        Nat.lt_of_lt_of_le hlt (UInt32.le_iff_toNat_le.1 (hstage.line_le_lastLine hs))
      obtain ⟨t, ht, heq⟩ := SourceMap.exists_line_eq_lastLine hlast
      rw [← heq] at hlast
      exact .inl ⟨_, .lineOutOfRange hfile ht ((hstage.lastLine_eq_iff ht).1 heq.symm)
        (toNat_lineWord_of_lt hlast) (lineWord_lt_iff.2 hlast)⟩
  · push Not at hfile
    obtain ⟨file, hmem, hne⟩ := hfile
    exact .inl ⟨_, .bufferMismatch hmem hne⟩

/-! ### Outcomes -/

/-- What the map that is attached to a request is read as. -/
inductive Attached : Option InputMap → Except SourceMap.Error (Option SourceMap) → Prop
  /-- There is none. -/
  | absent : Attached none (.ok none)
  /-- It is a map already. -/
  | decoded (map : SourceMap) : Attached (some (.decoded map)) (.ok (some map))
  /-- It is the text of a map. -/
  | parsed {json : String} {map : SourceMap} (h : SourceMap.ofText json = .ok map) :
      Attached (some (.text json)) (.ok (some map))
  /-- It is a text that cannot be read as a map. -/
  | rejected {json : String} {e : SourceMap.Error} (h : SourceMap.ofText json = .error e) :
      Attached (some (.text json)) (.error e)

/-- What becomes of instrumented code with source maps on. -/
inductive Finished (config : Config) (path : String) (incoming : Option SourceMap)
    (instrumented : Instrumented) : Except Error Output → Prop
  /-- The map of the stage cannot be read. -/
  | stageMap {e : SourceMap.Error} (h : SourceMap.ofText instrumented.map = .error e) :
      Finished config path incoming instrumented (.error (.stageMap e))
  /-- The map of the stage does not describe the code. -/
  | refused {stage : SourceMap} {e : Error} (h : SourceMap.ofText instrumented.map = .ok stage)
      (hrefused : Refused stage instrumented.code path e) :
      Finished config path incoming instrumented (.error e)
  /-- The map of the stage is composed with the attached one, and the code stays as it is. -/
  | composed {stage : SourceMap} (h : SourceMap.ofText instrumented.map = .ok stage)
      (haccepted : Accepted stage instrumented.code path) :
      Finished config path incoming instrumented (.ok ⟨instrumented.code,
        some (SourceMap.composeOptional ⟨config.sourcesContent⟩ incoming stage path)⟩)

/-- What loading a file comes to if the stage answers in the given way, with the calls of the
stage. -/
inductive Outcome (answer : String → String → Except InstrumentFailure Instrumented)
    (config : Config) (request : Request) : CallLog → Except Error Output → Prop
  /-- The attached map cannot be read, and the stage is not called. -/
  | inputMap {e : SourceMap.Error} (hon : config.sourcemaps = true)
      (hattached : Attached request.inputMap (.error e)) :
      Outcome answer config request [] (.error (.inputMap e))
  /-- The stage fails. With source maps on, the attached map can be read. -/
  | instrumentation {failure : InstrumentFailure}
      (hready : config.sourcemaps = true → ∃ incoming, Attached request.inputMap (.ok incoming))
      (hanswer : answer request.source request.resourcePath = .error failure) :
      Outcome answer config request [(request.source, request.resourcePath)]
        (.error (.instrumentation failure))
  /-- Source maps are off, and the code is all there is, whatever the maps are. -/
  | plain {instrumented : Instrumented} (hoff : config.sourcemaps = false)
      (hanswer : answer request.source request.resourcePath = .ok instrumented) :
      Outcome answer config request [(request.source, request.resourcePath)]
        (.ok ⟨instrumented.code, none⟩)
  /-- Source maps are on, the attached map can be read, and the stage does not fail. -/
  | finished {incoming : Option SourceMap} {instrumented : Instrumented}
      {result : Except Error Output} (hon : config.sourcemaps = true)
      (hattached : Attached request.inputMap (.ok incoming))
      (hanswer : answer request.source request.resourcePath = .ok instrumented)
      (hfinished : Finished config request.resourcePath incoming instrumented result) :
      Outcome answer config request [(request.source, request.resourcePath)] result

theorem exists_attached (input : Option InputMap) : ∃ result, Attached input result := by
  rcases input with - | (json | map)
  · exact ⟨_, .absent⟩
  · cases h : SourceMap.ofText json with
    | ok map => exact ⟨_, .parsed h⟩
    | error e => exact ⟨_, .rejected h⟩
  · exact ⟨_, .decoded map⟩

/-- Only a text that cannot be read is not read. -/
theorem attached_error_iff {input : Option InputMap} {e : SourceMap.Error} :
    Attached input (.error e) ↔
      ∃ json, input = some (.text json) ∧ SourceMap.ofText json = .error e := by
  constructor
  · rintro (_ | _ | _ | h)
    exact ⟨_, rfl, h⟩
  · rintro ⟨json, rfl, h⟩
    exact .rejected h

theorem exists_finished (config : Config) (path : String) (incoming : Option SourceMap)
    (instrumented : Instrumented) :
    ∃ result, Finished config path incoming instrumented result := by
  cases h : SourceMap.ofText instrumented.map with
  | error e => exact ⟨_, .stageMap h⟩
  | ok stage =>
    have hstage : stage.WellFormed := SourceMap.wellFormed_of_ofOctets h
    rcases refused_or_accepted hstage instrumented.code path with ⟨e, hrefused⟩ | haccepted
    · exact ⟨_, .refused h hrefused⟩
    · exact ⟨_, .composed h haccepted⟩

variable {answer : String → String → Except InstrumentFailure Instrumented} {config : Config}
  {request : Request}

theorem exists_outcome (answer : String → String → Except InstrumentFailure Instrumented)
    (config : Config) (request : Request) :
    ∃ calls result, Outcome answer config request calls result := by
  obtain ⟨attached, hattached⟩ := exists_attached request.inputMap
  cases hanswer : answer request.source request.resourcePath with
  | error failure =>
    rcases attached with e | incoming
    · cases hon : config.sourcemaps with
      | true => exact ⟨_, _, .inputMap hon hattached⟩
      | false => exact ⟨_, _, .instrumentation (by simp [hon]) hanswer⟩
    · exact ⟨_, _, .instrumentation (fun _ ↦ ⟨incoming, hattached⟩) hanswer⟩
  | ok instrumented =>
    cases hon : config.sourcemaps with
    | false => exact ⟨_, _, .plain hon hanswer⟩
    | true =>
      rcases attached with e | incoming
      · exact ⟨_, _, .inputMap hon hattached⟩
      · obtain ⟨result, hfinished⟩ :=
          exists_finished config request.resourcePath incoming instrumented
        exact ⟨_, _, .finished hon hattached hanswer hfinished⟩

/-! ### Loading -/

theorem incomingMap_of_off (hoff : config.sourcemaps = false) :
    incomingMap config request = .ok none := by
  rw [incomingMap, if_neg (by simp [hoff])]

/-- With source maps on, the incoming map is what the attached one is read as. -/
theorem Attached.incomingMap_eq {result : Except SourceMap.Error (Option SourceMap)}
    (hon : config.sourcemaps = true) (h : Attached request.inputMap result) :
    incomingMap config request = result.mapError Error.inputMap := by
  rw [incomingMap, if_pos hon]
  generalize request.inputMap = input at h
  cases h with
  | absent => rfl
  | decoded map => rfl
  | parsed h => simp only [h]; rfl
  | rejected h => simp only [h]; rfl

theorem Finished.outputOf_eq {incoming : Option SourceMap} {instrumented : Instrumented}
    {result : Except Error Output} (hon : config.sourcemaps = true)
    (h : Finished config path incoming instrumented result) :
    outputOf config path incoming instrumented = result := by
  rw [outputOf, if_pos hon]
  cases h with
  | stageMap h => simp only [h]
  | refused h hrefused => simp only [h, hrefused.checkStage_eq (SourceMap.wellFormed_of_ofOctets h)]
  | composed h haccepted => simp only [h, haccepted.checkStage_eq]

/-- An incoming map that cannot be read ends the run before the stage is called. -/
theorem load_run_of_error {e : Error} (h : incomingMap config request = .error e) (log : CallLog) :
    (load (Instrumenter.logged answer) config request).run log = (.error e, log) := by
  rw [load, h]
  rfl

/-- Any other run calls the stage once, with the code and the path of the request. -/
theorem load_run_of_ok {incoming : Option SourceMap} (h : incomingMap config request = .ok incoming)
    (log : CallLog) :
    (load (Instrumenter.logged answer) config request).run log =
      (match answer request.source request.resourcePath with
        | .error failure => .error (.instrumentation failure)
        | .ok instrumented => outputOf config request.resourcePath incoming instrumented,
        log ++ [(request.source, request.resourcePath)]) := by
  rw [load, h]
  show StateT.run (match answer request.source request.resourcePath with
    | .error failure => _
    | .ok instrumented => _) _ = _
  cases answer request.source request.resourcePath <;> rfl

/-- The loader does what the outcome says, and notes the calls behind those of before. -/
theorem Outcome.load_run {calls : CallLog} {result : Except Error Output}
    (h : Outcome answer config request calls result) (log : CallLog) :
    (load (Instrumenter.logged answer) config request).run log = (result, log ++ calls) := by
  cases h with
  | inputMap hon hattached =>
    rw [load_run_of_error (hattached.incomingMap_eq hon), List.append_nil]
  | instrumentation hready hanswer =>
    obtain ⟨incoming, hincoming⟩ : ∃ incoming, incomingMap config request = .ok incoming := by
      cases hon : config.sourcemaps with
      | false => exact ⟨none, incomingMap_of_off hon⟩
      | true =>
        obtain ⟨incoming, hattached⟩ := hready hon
        exact ⟨incoming, hattached.incomingMap_eq hon⟩
    rw [load_run_of_ok hincoming, hanswer]
  | plain hoff hanswer =>
    rw [load_run_of_ok (incomingMap_of_off hoff), hanswer]
    show (outputOf config _ _ _, _) = _
    rw [outputOf, if_neg (by simp [hoff])]
  | finished hon hattached hanswer hfinished =>
    rw [load_run_of_ok (hattached.incomingMap_eq hon), hanswer]
    show (outputOf config _ _ _, _) = _
    rw [hfinished.outputOf_eq hon]

/-- There is no more than one outcome. -/
theorem Outcome.unique {calls calls' : CallLog} {result result' : Except Error Output}
    (h : Outcome answer config request calls result)
    (h' : Outcome answer config request calls' result') : calls = calls' ∧ result = result' := by
  have hrun := (h.load_run []).symm.trans (h'.load_run [])
  obtain ⟨hresult, hcalls⟩ := Prod.mk.inj hrun
  exact ⟨hcalls, hresult⟩

/-- The stage is called at most once, and with nothing but the code and the path. -/
theorem Outcome.calls_eq {calls : CallLog} {result : Except Error Output}
    (h : Outcome answer config request calls result) :
    calls = [] ∨ calls = [(request.source, request.resourcePath)] := by
  cases h with
  | inputMap => exact .inl rfl
  | _ => exact .inr rfl

/-- The stage is not called exactly if there is a text attached that cannot be read, with source
maps on. -/
theorem Outcome.calls_eq_nil_iff {calls : CallLog} {result : Except Error Output}
    (h : Outcome answer config request calls result) :
    calls = [] ↔ config.sourcemaps = true ∧
      ∃ json e, request.inputMap = some (.text json) ∧ SourceMap.ofText json = .error e := by
  constructor
  · rintro rfl
    cases h with
    | inputMap hon hattached =>
      obtain ⟨json, hinput, hjson⟩ := attached_error_iff.1 hattached
      exact ⟨hon, json, _, hinput, hjson⟩
  · rintro ⟨hon, json, e, hinput, hjson⟩
    have hrejected : Outcome answer config request [] (.error (.inputMap e)) :=
      .inputMap hon (hinput ▸ .rejected hjson)
    exact (h.unique hrejected).1

/-- What a callback is given for a result: a failure alone, or the code and its map. -/
def report {β : Type} (callback : Option Error → Option String → Option SourceMap → β) :
    Except Error Output → β
  | .error e => callback (some e) none none
  | .ok output => callback none (some output.code) output.map

theorem Outcome.run_run {β : Type} {calls : CallLog} {result : Except Error Output}
    (h : Outcome answer config request calls result)
    (callback : Option Error → Option String → Option SourceMap → β) (log : CallLog) :
    (run (Instrumenter.logged answer) config request callback).run log =
      (report callback result, log ++ calls) := by
  have hload := h.load_run log
  show StateT.run (load (Instrumenter.logged answer) config request >>= fun result ↦
    match result with
    | .error e => pure (callback (some e) none none)
    | .ok output => pure (callback none (some output.code) output.map)) log = _
  rw [StateT.run_bind, hload]
  cases result <;> rfl

/-- There is exactly one outcome, and it is what the loader comes to, behind whatever calls there
were before. The stage is called at most once, with the code and the path of the request, and it is
not called exactly if a text is attached that cannot be read, with source maps on. Loading with a
callback hands it the same outcome after the same calls. -/
theorem load_comes_to_outcome
    (answer : String → String → Except InstrumentFailure Instrumented) (config : Config)
    (request : Request) :
    ∃ calls result,
      (∀ calls' result', Outcome answer config request calls' result' ↔
        calls' = calls ∧ result' = result) ∧
      (∀ log, (load (Instrumenter.logged answer) config request).run log =
        (result, log ++ calls)) ∧
      (calls = [] ∨ calls = [(request.source, request.resourcePath)]) ∧
      (calls = [] ↔ config.sourcemaps = true ∧
        ∃ json e, request.inputMap = some (.text json) ∧ SourceMap.ofText json = .error e) ∧
      ∀ {β : Type} (callback : Option Error → Option String → Option SourceMap → β) log,
        (run (Instrumenter.logged answer) config request callback).run log =
          (report callback result, log ++ calls) := by
  obtain ⟨calls, result, h⟩ := exists_outcome answer config request
  refine ⟨calls, result, fun calls' result' ↦ ⟨fun h' ↦ h'.unique h, ?_⟩, h.load_run, h.calls_eq,
    h.calls_eq_nil_iff, h.run_run⟩
  rintro ⟨rfl, rfl⟩
  exact h

end Loader

end SourceChain
