import SourceChain.Proofs.Loader.Handover
import SourceChain.Proofs.SourceMap.Independence

/-!
# Loading with and without the texts of sources

Whether texts of sources are wanted is passed on to the composition and asked nowhere else. So a
loader that does not want them gives what one that does gives, with the texts taken out
(`withoutContents_load`). That holds of the loader as a computation: whatever the stage does when it
is called, both loaders have it done.

What two loaders give, of which just one wants texts, is then the same failure, or the same code
with maps that agree but for texts (`SameButContents`).
-/

namespace SourceChain.Loader

/-- The output with no text embedded in its map. -/
def Output.withoutContents (output : Output) : Output :=
  { output with map := output.map.map SourceMap.withoutContents }

/-- Two results that differ in no more than the texts that their maps embed. -/
inductive SameButContents : Except Error Output → Except Error Output → Prop
  /-- Both are one failure. -/
  | error (e : Error) : SameButContents (.error e) (.error e)
  /-- Both have the same code, and the maps are the same once no text is embedded. -/
  | ok {code : String} {map map' : Option SourceMap}
      (h : map.map SourceMap.withoutContents = map'.map SourceMap.withoutContents) :
      SameButContents (.ok ⟨code, map⟩) (.ok ⟨code, map'⟩)

theorem sameButContents_of_map_eq {result result' : Except Error Output}
    (h : result.map Output.withoutContents = result'.map Output.withoutContents) :
    SameButContents result result' := by
  rcases result with e | ⟨code, map⟩ <;> rcases result' with e' | ⟨code', map'⟩
  · obtain rfl := Except.error.inj h
    exact .error e
  · cases h
  · cases h
  · obtain ⟨rfl, hmap⟩ := Output.mk.inj (Except.ok.inj h)
    exact .ok hmap

/-- The code is checked in the same way, and the composition does without texts. -/
theorem withoutContents_outputOf (config : Config) (path : String) (incoming : Option SourceMap)
    (instrumented : Instrumented) :
    (outputOf config path incoming instrumented).map Output.withoutContents =
      outputOf { config with sourcesContent := false } path incoming instrumented := by
  rw [outputOf, outputOf]
  split
  next =>
    rcases SourceMap.ofText instrumented.map with e | stage
    · rfl
    · dsimp only
      rcases checkStage stage instrumented.code path with e | -
      · rfl
      · have hcomposed := SourceMap.composeOptional_withoutContents ⟨config.sourcesContent⟩
          incoming stage path
        exact congrArg (fun map ↦ Except.ok (Output.mk instrumented.code (some map))) hcomposed
  next => rfl

/-- To take the texts out of what is loaded is to load without them. -/
theorem withoutContents_load {m : Type → Type} [Monad m] [LawfulMonad m]
    (instrument : Instrumenter m) (config : Config) (request : Request) :
    Except.map Output.withoutContents <$> load instrument config request =
      load instrument { config with sourcesContent := false } request := by
  have hread : incomingMap { config with sourcesContent := false } request =
      incomingMap config request := rfl
  rw [load, load, hread]
  rcases incomingMap config request with e | incoming
  · exact map_pure _ _
  · dsimp only
    rw [map_bind]
    refine congrArg _ (funext fun answer ↦ ?_)
    rcases answer with failure | instrumented
    · exact map_pure _ _
    · dsimp only
      rw [map_pure, withoutContents_outputOf]

/-- Whether texts are wanted decides no more than whether they are in the result: they can as well
be taken out of the composition, or out of the maps that are composed. Two loaders that differ in
nothing else fail in the same way, or give the same code with maps that agree but for texts. -/
theorem load_same_but_contents :
    (∀ (incoming : Option SourceMap) (stage : SourceMap) (path : String),
      SourceMap.composeOptional ⟨false⟩ incoming stage path =
        (SourceMap.composeOptional ⟨true⟩ incoming stage path).withoutContents ∧
      SourceMap.composeOptional ⟨false⟩ incoming stage path =
        SourceMap.composeOptional ⟨true⟩ (incoming.map SourceMap.withoutContents)
          stage.withoutContents path) ∧
    ∀ (σ : Type) (instrument : Instrumenter (StateM σ)) (config : Config) (request : Request)
      (wanted wanted' : Bool) (state : σ),
      ∃ result result' after,
        (load instrument { config with sourcesContent := wanted } request).run state =
          (result, after) ∧
        (load instrument { config with sourcesContent := wanted' } request).run state =
          (result', after) ∧
        SameButContents result result' := by
  refine ⟨fun incoming stage path ↦ ⟨?_, ?_⟩, ?_⟩
  · exact (SourceMap.composeOptional_withoutContents ⟨true⟩ incoming stage path).symm
  · exact (SourceMap.composeOptional_of_withoutContents ⟨true⟩ incoming stage path).symm
  · intro σ instrument config request wanted wanted' state
    have hloads := (withoutContents_load instrument { config with sourcesContent := wanted }
      request).trans (withoutContents_load instrument { config with sourcesContent := wanted' }
        request).symm
    have hruns := congrArg (StateT.run · state) hloads
    simp only [StateT.run_map] at hruns
    obtain ⟨hresults, hafter⟩ := Prod.mk.inj hruns
    exact ⟨_, _, _, rfl, Prod.ext rfl hafter.symm, sameButContents_of_map_eq hresults⟩

end SourceChain.Loader
