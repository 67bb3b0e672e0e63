import SourceChain.Instrument
import SourceChain.Config.Layer
import SourceChain.SourceMap.Compose

/-!
# The loader

Loading a file decodes the map that the stage before has attached, runs the instrumentation stage,
and composes the map of that stage with the incoming one, so that the result points at the
sources that the chain of stages started from.

An incoming map that cannot be decoded is reported before instrumentation runs, and a failure of the
instrumentation is passed on as it is. With source maps off neither map is looked at.
-/

namespace SourceChain.Loader

/-- The map that the stage before has attached. -/
inductive InputMap where
  /-- Its JSON text. -/
  | text (json : String)
  /-- The map itself. -/
  | decoded (map : SourceMap)
deriving DecidableEq, Repr

/-- A file to load. -/
structure Request where
  /-- The code, as earlier stages left it. -/
  source : String
  /-- The path by which the host knows the file. -/
  resourcePath : String
  /-- The map from the code to the sources, if earlier stages made one. -/
  inputMap : Option InputMap := none
deriving DecidableEq, Repr

/-- A loaded file. -/
structure Output where
  /-- The instrumented code. -/
  code : String
  /-- The map from the code to the sources; none with source maps off. -/
  map : Option SourceMap
deriving DecidableEq, Repr

/-- The JSON text of the map. -/
def Output.mapText (output : Output) : Option String :=
  output.map.map SourceMap.toText

/-- Why a file could not be loaded. -/
inductive Error where
  /-- The attached map could not be decoded. -/
  | inputMap (cause : SourceMap.Error)
  /-- The code could not be instrumented. -/
  | instrumentation (failure : InstrumentFailure)
  /-- The map of the instrumentation could not be decoded. -/
  | stageMap (cause : SourceMap.Error)
  /-- The map of the instrumentation is for another buffer. -/
  | bufferMismatch (expected actual : String)
  /-- The map of the instrumentation points past the end of the code. -/
  | lineOutOfRange (line lines : UInt32)
deriving DecidableEq, Repr

/-- The wording of a failure. -/
def Error.message : Error → String
  | inputMap cause => s!"failed to decode incoming source map: {cause.message}"
  | instrumentation failure => failure.message
  | stageMap cause => s!"failed to decode instrumentation source map: {cause.message}"
  | bufferMismatch expected actual =>
    s!"instrumentation source map describes {actual}, expected {expected}"
  | lineOutOfRange line lines =>
    s!"instrumentation source map references generated line {line}, " ++
      s!"but the instrumented code has {lines} lines"

/-- Whether a failure means that the map and the code of the instrumentation disagree. -/
def Error.isPreconditionViolation : Error → Bool
  | bufferMismatch _ _ => true
  | lineOutOfRange _ _ => true
  | _ => false

/-! ### Steps -/

/-- The incoming map of a request. With source maps off it is not looked at. -/
def incomingMap (config : Config) (request : Request) : Except Error (Option SourceMap) :=
  if config.sourcemaps then
    match request.inputMap with
    | none => .ok none
    | some (.decoded map) => .ok (some map)
    | some (.text json) =>
      match SourceMap.ofText json with
      | .ok map => .ok (some map)
      | .error e => .error (.inputMap e)
  else .ok none

/-- How many lines code has: one more than it has line feeds. -/
def lineCount (code : String) : Nat :=
  code.toList.count '\n' + 1

/-- The number of lines as a 32-bit word, which is the largest word if there are more. -/
def lineWord (code : String) : UInt32 :=
  UInt32.ofNat (min (lineCount code) (UInt32.size - 1))

/-- Checks that a map describes the code it came with. -/
def checkStage (stage : SourceMap) (code resourcePath : String) : Except Error Unit :=
  let mismatch := stage.file.filter (· ≠ resourcePath)
  match mismatch with
  | some file => .error (.bufferMismatch resourcePath file)
  | none =>
    if lineWord code < stage.mappings.lastLine then
      .error (.lineOutOfRange stage.mappings.lastLine (lineWord code))
    else .ok ()

/-- The loaded file, once its code has been instrumented. -/
def outputOf (config : Config) (resourcePath : String) (incoming : Option SourceMap)
    (instrumented : Instrumented) : Except Error Output :=
  if config.sourcemaps then
    match SourceMap.ofText instrumented.map with
    | .error e => .error (.stageMap e)
    | .ok stage =>
      match checkStage stage instrumented.code resourcePath with
      | .error e => .error e
      | .ok () =>
        let options : SourceMap.ComposeOptions := ⟨config.sourcesContent⟩
        .ok ⟨instrumented.code,
          some (SourceMap.composeOptional options incoming stage resourcePath)⟩
  else .ok ⟨instrumented.code, none⟩

/-! ### Loading -/

/-- Loads a file. -/
def load {m : Type → Type} [Monad m] (instrument : Instrumenter m) (config : Config)
    (request : Request) : m (Except Error Output) :=
  match incomingMap config request with
  | .error e => pure (.error e)
  | .ok incoming => do
    match ← instrument request.source request.resourcePath with
    | .error failure => pure (.error (.instrumentation failure))
    | .ok instrumented => pure (outputOf config request.resourcePath incoming instrumented)

/-- Loads a file and hands the outcome to a callback: a failure, or the code and its map. -/
def run {m : Type → Type} [Monad m] (instrument : Instrumenter m) (config : Config)
    (request : Request) (callback : Option Error → Option String → Option SourceMap → β) : m β := do
  match ← load instrument config request with
  | .error e => pure (callback (some e) none none)
  | .ok output => pure (callback none (some output.code) output.map)

end SourceChain.Loader
