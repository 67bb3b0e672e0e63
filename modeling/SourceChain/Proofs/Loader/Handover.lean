import SourceChain.Proofs.Loader.Outcome
import SourceChain.Proofs.SourceMap.Provenance
import SourceChain.Proofs.SourceMap.RoundTrip

/-!
# Maps that a loader is handed and hands on

A loader stands in a chain of stages, and maps pass in and out of it as JSON text. What it hands on
is a map of the code it returns (`load_describes_output`): the map is well formed, stays within the
lines of the code, and leads to nothing but the sources of the attached map. It can be written and
read back, so that the next stage is handed what this one had.

In the other direction nothing is lost either (`load_eq_composeOptional`). A map that is attached as
text has the same effect as the map itself, and the map of the instrumentation, which always comes
as text, is composed as it was before it was written. Both rest on reading back what was written
(`SourceMap.WellFormed.ofText_toText`).

The instrumentation may keep a state from call to call, and what is proved is about a run from any
state. Nothing is asked of the stage but the one answer that it gives in that run.
-/

namespace SourceChain

namespace SourceMap

/-! ### Compositions with a map that may be absent -/

variable {options : ComposeOptions} {incoming : Option SourceMap} {stage : SourceMap}
  {path : String}

theorem file_composeOptional (hincoming : ∀ m, incoming = some m → m.WellFormed)
    (hstage : stage.WellFormed) :
    (composeOptional options incoming stage path).file = stage.file := by
  rcases incoming with - | incoming
  · have hfile : (stage.relabel path).file = stage.file := by
      rw [relabel]
      split <;> rfl
    rw [composeOptional]
    split <;> exact hfile
  · exact (leadsThrough_composeWith options (hincoming incoming rfl) hstage).file

/-- Generated positions are those of the stage map, of which some may be left out. -/
theorem sublist_generated_composeOptional (options : ComposeOptions) (path : String)
    (hincoming : ∀ m, incoming = some m → m.WellFormed) (hstage : stage.WellFormed) :
    ((composeOptional options incoming stage path).segments.map (·.generated)).Sublist
      (stage.segments.map (·.generated)) := by
  rcases incoming with - | incoming
  · have hsegments : (composeOptional options none stage path).segments = stage.segments := by
      rw [composeOptional]
      split <;> exact segments_relabel stage path
    rw [hsegments]
  · exact (leadsThrough_composeWith options (hincoming incoming rfl) hstage).sublist_generated

/-- No source of a composition is embedded if contents are not wanted. -/
theorem content_composeOptional (hoff : options.sourcesContent = false)
    (hincoming : ∀ m, incoming = some m → m.WellFormed) (hstage : stage.WellFormed)
    {source : Source} (hsource : source ∈ (composeOptional options incoming stage path).sources) :
    source.content = none := by
  rcases incoming with - | incoming
  · rw [composeOptional, hoff] at hsource
    obtain ⟨original, -, rfl⟩ := Array.mem_map.1 hsource
    rfl
  · rw [composeOptional, composeWith_eq_ofLinks (hincoming incoming rfl) hstage] at hsource
    obtain ⟨-, hcontent⟩ := exists_of_mem_sources_ofLinks hsource
    rw [hcontent, Option.eq_none_iff_forall_not_mem]
    intro text htext
    obtain ⟨l, hl, location, hlocation, -, hlinked⟩ := Link.exists_of_content?_eq_some htext
    obtain ⟨original, -, -, hwanted⟩ := exists_source_of_mem_composedLinks hl hlocation
    rw [hlinked, hoff] at hwanted
    exact Option.some_ne_none text hwanted

end SourceMap

namespace Loader

variable {σ : Type} {instrument : Instrumenter (StateM σ)} {config : Config} {request : Request}
  {state state' : σ}

/-! ### Runs of a stage with a state -/

/-- Once the attached map has been read, the stage is called, and its answer decides. -/
theorem load_run (instrument : Instrumenter (StateM σ)) {incoming : Option SourceMap}
    (h : incomingMap config request = .ok incoming) (state : σ) :
    (load instrument config request).run state =
      ((instrument request.source request.resourcePath).run state).map
        (fun
          | .error failure => .error (.instrumentation failure)
          | .ok instrumented => outputOf config request.resourcePath incoming instrumented)
        id := by
  rw [load, h]
  show StateT.run (instrument request.source request.resourcePath >>= fun answer ↦
    match answer with
    | .error failure => pure (.error (.instrumentation failure))
    | .ok instrumented =>
      pure (outputOf config request.resourcePath incoming instrumented)) state = _
  rw [StateT.run_bind]
  show StateT.run (match ((instrument request.source request.resourcePath).run state).1 with
    | .error failure => _
    | .ok instrumented => _) ((instrument request.source request.resourcePath).run state).2 = _
  rcases (instrument request.source request.resourcePath).run state with ⟨failure | instrumented, _⟩
  · rfl
  · rfl

/-- A file is loaded only if the attached map can be read and the stage does not fail. -/
theorem exists_of_load_eq_ok {output : Output}
    (h : (load instrument config request).run state = (.ok output, state')) :
    ∃ incoming instrumented, incomingMap config request = .ok incoming ∧
      (instrument request.source request.resourcePath).run state = (.ok instrumented, state') ∧
      outputOf config request.resourcePath incoming instrumented = .ok output := by
  rcases hincoming : incomingMap config request with e | incoming
  · rw [load, hincoming] at h
    cases (Prod.mk.inj h).1
  · rw [load_run instrument hincoming] at h
    rcases hanswer : (instrument request.source request.resourcePath).run state with
      ⟨failure | instrumented, after⟩
    · rw [hanswer] at h
      cases (Prod.mk.inj h).1
    · rw [hanswer] at h
      obtain ⟨houtput, rfl⟩ := Prod.mk.inj h
      exact ⟨incoming, instrumented, rfl, rfl, houtput⟩

/-- With source maps on, the outcome of a run in which the stage does not fail is what becomes of
the instrumented code. -/
theorem load_run_of_finished {incoming : Option SourceMap} {instrumented : Instrumented}
    {result : Except Error Output} (hon : config.sourcemaps = true)
    (hattached : Attached request.inputMap (.ok incoming))
    (hanswer : (instrument request.source request.resourcePath).run state =
      (.ok instrumented, state'))
    (hfinished : Finished config request.resourcePath incoming instrumented result) :
    (load instrument config request).run state = (result, state') := by
  rw [load_run instrument (hattached.incomingMap_eq hon), hanswer]
  exact Prod.ext (hfinished.outputOf_eq hon) rfl

/-! ### What a loaded map rests on -/

/-- A map that passes the check is accepted. -/
theorem accepted_of_checkStage {stage : SourceMap} {code path : String} (hstage : stage.WellFormed)
    (h : checkStage stage code path = .ok ()) : Accepted stage code path := by
  rcases refused_or_accepted hstage code path with ⟨e, hrefused⟩ | haccepted
  · rw [hrefused.checkStage_eq hstage] at h
    cases h
  · exact haccepted

/-- With source maps on, the incoming map is the attached one. -/
theorem attached_of_incomingMap {incoming : Option SourceMap} (hon : config.sourcemaps = true)
    (h : incomingMap config request = .ok incoming) : Attached request.inputMap (.ok incoming) := by
  obtain ⟨result, hattached⟩ := exists_attached request.inputMap
  have hread := hattached.incomingMap_eq hon
  rw [h] at hread
  rcases result with e | attached
  · cases hread
  · obtain rfl := Except.ok.inj hread
    exact hattached

/-- An attached map is well formed, if it is when it is attached as a map. -/
theorem Attached.wellFormed {input : Option InputMap} {incoming : SourceMap}
    (h : Attached input (.ok (some incoming)))
    (hdecoded : ∀ map, input = some (.decoded map) → map.WellFormed) : incoming.WellFormed := by
  rcases h with _ | _ | h
  · exact hdecoded incoming rfl
  · exact SourceMap.wellFormed_of_ofOctets h

/-- Instrumented code comes with a map only if source maps are on. The map is a composition of the
map of the stage, which was read and accepted. -/
theorem exists_of_outputOf_eq_ok {path : String} {incoming : Option SourceMap}
    {instrumented : Instrumented} {output : Output} {m : SourceMap}
    (h : outputOf config path incoming instrumented = .ok output) (hmap : output.map = some m) :
    config.sourcemaps = true ∧ instrumented.code = output.code ∧
      ∃ stage, SourceMap.ofText instrumented.map = .ok stage ∧ Accepted stage output.code path ∧
        m = SourceMap.composeOptional ⟨config.sourcesContent⟩ incoming stage path := by
  rw [outputOf] at h
  split at h
  next hon =>
    split at h
    next => cases h
    next stage hstage =>
      split at h
      next => cases h
      next hcheck =>
        obtain rfl := Except.ok.inj h
        obtain rfl := Option.some.inj hmap
        exact ⟨hon, rfl, stage, hstage,
          accepted_of_checkStage (SourceMap.wellFormed_of_ofOctets hstage) hcheck, rfl⟩
  next =>
    obtain rfl := Except.ok.inj h
    exact absurd hmap (Option.some_ne_none m).symm

/-! ### The map that is handed on -/

/-- A map describes code that was loaded for a request, given the map of the stage. -/
structure Describes (config : Config) (request : Request) (stage : SourceMap) (code : String)
    (m : SourceMap) : Prop where
  /-- The map keeps every promise of source maps. -/
  wellFormed : m.WellFormed
  /-- It is for the file or for none. -/
  file : ∀ file ∈ m.file, file = request.resourcePath
  /-- Its lines are lines of the code. -/
  line : ∀ s ∈ m.segments,
    1 ≤ s.generated.line.toNat ∧ s.generated.line.toNat ≤ code.toList.count '\n' + 1
  /-- Its positions are positions of the map of the stage, in order. -/
  positions : (m.segments.map (·.generated)).Sublist (stage.segments.map (·.generated))
  /-- If a map was attached, the sources are sources of that. -/
  attached : ∀ input, request.inputMap = some input →
    ∃ incoming, Attached (some input) (.ok (some incoming)) ∧
      SourceMap.LeadsThrough incoming stage m
  /-- No source is embedded if contents are not wanted. -/
  content : config.sourcesContent = false → ∀ source ∈ m.sources, source.content = none
  /-- It reads back from its text. -/
  reads : SourceMap.ofText m.toText = .ok m

/-- A composition describes the code that came with the map of the stage, if that was accepted. -/
theorem Accepted.describes {stage : SourceMap} {code : String} {incoming : Option SourceMap}
    (haccepted : Accepted stage code request.resourcePath) (hstage : stage.WellFormed)
    (hattached : Attached request.inputMap (.ok incoming))
    (hdecoded : ∀ map, request.inputMap = some (.decoded map) → map.WellFormed) :
    Describes config request stage code
      (.composeOptional ⟨config.sourcesContent⟩ incoming stage request.resourcePath) := by
  have hincoming : ∀ m, incoming = some m → m.WellFormed := by
    rintro m rfl
    exact hattached.wellFormed hdecoded
  have hwell := hstage.composeOptional hincoming ⟨config.sourcesContent⟩ request.resourcePath
  have hpositions := SourceMap.sublist_generated_composeOptional ⟨config.sourcesContent⟩
    request.resourcePath hincoming hstage
  refine
    { wellFormed := hwell
      file := fun file hfile ↦ ?_
      line := fun s hs ↦ ⟨?_, ?_⟩
      positions := hpositions
      attached := fun input hinput ↦ ?_
      content := fun hoff _ hsource ↦
        SourceMap.content_composeOptional hoff hincoming hstage hsource
      reads := hwell.ofText_toText }
  · rw [SourceMap.file_composeOptional hincoming hstage] at hfile
    exact haccepted.file file hfile
  · exact UInt32.lt_iff_toNat_lt.1 (UInt32.pos_iff_ne_zero.2 (hwell.valid s hs).line_ne_zero)
  · -- the segment stands where one of the stage does, and those have been checked
    obtain ⟨t, ht, hline⟩ := List.mem_map.1 (hpositions.subset (List.mem_map_of_mem hs))
    rw [← hline]
    exact haccepted.line_le t ht
  · rw [hinput] at hattached
    obtain ⟨m, rfl⟩ : ∃ m, incoming = some m := by
      rcases hattached with _ | _ | _ <;> exact ⟨_, rfl⟩
    exact ⟨m, hattached, SourceMap.leadsThrough_composeWith _ (hincoming m rfl) hstage⟩

/-- A map that is loaded describes the code that it comes with, and it can be handed on as text. -/
theorem load_describes_output {output : Output} {m : SourceMap}
    (hdecoded : ∀ map, request.inputMap = some (.decoded map) → map.WellFormed)
    (hload : (load instrument config request).run state = (.ok output, state'))
    (hmap : output.map = some m) :
    output.mapText = some m.toText ∧
      ∃ instrumented stage,
        (instrument request.source request.resourcePath).run state = (.ok instrumented, state') ∧
        instrumented.code = output.code ∧ SourceMap.ofText instrumented.map = .ok stage ∧
        Describes config request stage output.code m := by
  obtain ⟨incoming, instrumented, hincoming, hanswer, houtput⟩ := exists_of_load_eq_ok hload
  obtain ⟨hon, hcode, stage, hread, haccepted, rfl⟩ := exists_of_outputOf_eq_ok houtput hmap
  refine ⟨congrArg (Option.map SourceMap.toText) hmap, instrumented, stage, hanswer, hcode, hread,
    ?_⟩
  exact haccepted.describes (SourceMap.wellFormed_of_ofOctets hread)
    (attached_of_incomingMap hon hincoming) hdecoded

/-- A stage that notes its calls and gives two lines of code, with a map for `out.js`. -/
def sampleInstrument : Instrumenter (StateM CallLog) :=
  .logged fun _ _ ↦ .ok (.ofMap "a\nb" SourceMap.sampleStage)

/-- Code for `out.js` with a map of its own attached. -/
def sampleRequest : Request :=
  ⟨"x", "out.js", some (.decoded SourceMap.sampleIncoming)⟩

theorem load_describes_sampleOutput :
    let config : Config := { sourcesContent := false }
    let m := SourceMap.composeOptional ⟨false⟩ (some SourceMap.sampleIncoming)
      SourceMap.sampleStage "out.js"
    (∀ map, sampleRequest.inputMap = some (.decoded map) → map.WellFormed) ∧
      (load sampleInstrument config sampleRequest).run [] =
        (.ok ⟨"a\nb", some m⟩, [("x", "out.js")]) ∧
      ∃ instrumented stage,
        (sampleInstrument "x" "out.js").run [] = (.ok instrumented, [("x", "out.js")]) ∧
        SourceMap.ofText instrumented.map = .ok stage ∧
        Describes config sampleRequest stage "a\nb" m := by
  intro config m
  have hincoming : SourceMap.sampleIncoming.WellFormed := by decide
  have hstage : SourceMap.sampleStage.WellFormed := by decide
  have hdecoded : ∀ map, sampleRequest.inputMap = some (.decoded map) → map.WellFormed := by
    intro map hmap
    obtain rfl : SourceMap.sampleIncoming = map := by simpa [sampleRequest] using hmap
    exact hincoming
  have haccepted : Accepted SourceMap.sampleStage "a\nb" "out.js" :=
    ⟨by decide, by decide⟩
  have hload : (load sampleInstrument config sampleRequest).run [] =
      (.ok ⟨"a\nb", some m⟩, [("x", "out.js")]) :=
    load_run_of_finished rfl (.decoded _) rfl (.composed hstage.ofText_toText haccepted)
  obtain ⟨-, instrumented, stage, hanswer, -, hread, hdescribes⟩ :=
    load_describes_output hdecoded hload rfl
  exact ⟨hdecoded, hload, instrumented, stage, hanswer, hread, hdescribes⟩

/-! ### The maps that are handed over -/

/-- It makes no difference how maps are handed over: whether the attached map comes as text or as a
map, loading composes it with the map that the instrumented code was paired with, and without one
that map is composed with none. -/
theorem load_eq_composeOptional {incoming : Option SourceMap} {stage : SourceMap}
    {source path code : String} (hon : config.sourcemaps = true)
    (hincoming : ∀ m, incoming = some m → m.WellFormed) (hstage : stage.WellFormed)
    (hfile : ∀ file ∈ stage.file, file = path)
    (hlines : stage.mappings.lastLine.toNat ≤ code.toList.count '\n' + 1)
    (hanswer : (instrument source path).run state = (.ok (.ofMap code stage), state')) :
    let composed := SourceMap.composeOptional ⟨config.sourcesContent⟩ incoming stage path
    (∀ m, incoming = some m →
      (load instrument config ⟨source, path, some (.text m.toText)⟩).run state =
        (.ok ⟨code, some composed⟩, state') ∧
      (load instrument config ⟨source, path, some (.decoded m)⟩).run state =
        (.ok ⟨code, some composed⟩, state')) ∧
    (incoming = none →
      (load instrument config ⟨source, path, none⟩).run state =
        (.ok ⟨code, some composed⟩, state')) := by
  have haccepted : Accepted stage code path :=
    ⟨hfile, fun s hs ↦
      Nat.le_trans (UInt32.le_iff_toNat_le.1 (hstage.line_le_lastLine hs)) hlines⟩
  have hfinished : Finished config path incoming (.ofMap code stage) _ :=
    .composed hstage.ofText_toText haccepted
  refine ⟨?_, ?_⟩
  · rintro m rfl
    have hread := (hincoming m rfl).ofText_toText
    exact ⟨load_run_of_finished hon (.parsed hread) hanswer hfinished,
      load_run_of_finished hon (.decoded m) hanswer hfinished⟩
  · rintro rfl
    exact load_run_of_finished hon .absent hanswer hfinished

theorem load_eq_composeOptional_sample :
    let composed := SourceMap.composeOptional {} (some SourceMap.sampleIncoming)
      SourceMap.sampleStage "out.js"
    SourceMap.sampleIncoming.WellFormed ∧ SourceMap.sampleStage.WellFormed ∧
      SourceMap.sampleStage.mappings.lastLine.toNat ≤ "a\nb".toList.count '\n' + 1 ∧
      (load sampleInstrument {} ⟨"x", "out.js", some (.text SourceMap.sampleIncoming.toText)⟩).run
        [] = (.ok ⟨"a\nb", some composed⟩, [("x", "out.js")]) ∧
      (load sampleInstrument {} sampleRequest).run [] =
        (.ok ⟨"a\nb", some composed⟩, [("x", "out.js")]) := by
  intro composed
  have hincoming : SourceMap.sampleIncoming.WellFormed := by decide
  have hstage : SourceMap.sampleStage.WellFormed := by decide
  have hlines : SourceMap.sampleStage.mappings.lastLine.toNat ≤ "a\nb".toList.count '\n' + 1 := by
    decide
  have hwell : ∀ m, some SourceMap.sampleIncoming = some m → m.WellFormed :=
    fun _ hm ↦ Option.some.inj hm ▸ hincoming
  have hfile : ∀ file ∈ SourceMap.sampleStage.file, file = "out.js" := by decide
  have hanswer : (sampleInstrument "x" "out.js").run [] =
      (.ok (.ofMap "a\nb" SourceMap.sampleStage), [("x", "out.js")]) := rfl
  have hon : ({} : Config).sourcemaps = true := rfl
  have hagree := load_eq_composeOptional hon hwell hstage hfile hlines hanswer
  exact ⟨hincoming, hstage, hlines, hagree.1 _ rfl⟩

end Loader

end SourceChain
