import SourceChain.Config.Layer
import SourceChain.Config.File

/-!
# Configuration sources

A source is anything with a name, a precedence and a layer that it may fail to give. The layers of
all sources are merged in the order of their precedence, and sources of equal precedence in the
order they are listed, so that the last of them has the final say.
-/

namespace SourceChain.Config

/-! ### Precedence -/

/-- How strong a source is against the others. -/
inductive Precedence where
  | defaults
  | configFile
  | environment
deriving DecidableEq, Repr

/-- The rank of a precedence; the higher overrides the lower. -/
def Precedence.rank : Precedence → Nat
  | defaults => 10
  | configFile => 20
  | environment => 50

/-- Where a layer comes from. -/
structure Source where
  /-- What the source is called. -/
  name : String
  /-- How strong it is against the others. -/
  precedence : Precedence
  /-- The layer it gives, or why it gives none. -/
  load : Except Error Layer

/-! ### The environment -/

/-- The environment of a process: the octets of each variable that is set. -/
abbrev Environment := String → Option ByteArray

/-- The text of a variable. One that is empty or no UTF-8 counts as not set. -/
def Environment.text? (environment : Environment) (key : String) : Option String :=
  match (environment key).bind String.fromUTF8? with
  | some "" => none
  | text => text

/-- The truth value that a word in any case stands for. -/
def booleanOf? (word : String) : Option Bool :=
  let lower := word.toLower
  if lower ∈ ["1", "true", "yes", "on"] then some true
  else if lower ∈ ["0", "false", "no", "off"] then some false
  else none

/-- The truth value of a variable, if it is set. -/
def Environment.boolean (environment : Environment) (key : String) : Except Error (Option Bool) :=
  match environment.text? key with
  | none => .ok none
  | some value =>
    match booleanOf? value with
    | some b => .ok (some b)
    | none => .error (.notBoolean key value)

/-- The log format of a variable, if it is set. -/
def Environment.logFormat (environment : Environment) (key : String) :
    Except Error (Option LogFormat) :=
  match environment.text? key with
  | none => .ok none
  | some value =>
    match LogFormat.parse value with
    | .ok format => .ok (some format)
    | .error e => .error e

/-- The name of the variable for a field. -/
def variableName (stem field : String) : String :=
  stem ++ "_" ++ field

/-- The layer that the variables with the given stem make. The log format is looked at first, and a
layer says something about logging only if one of its two variables is set. -/
def Environment.layer (environment : Environment) (stem : String) : Except Error Layer := do
  let level := environment.text? (variableName stem "LOG_LEVEL")
  let format ← environment.logFormat (variableName stem "LOG_FORMAT")
  let sourcemaps ← environment.boolean (variableName stem "SOURCEMAPS")
  let sourcesContent ← environment.boolean (variableName stem "SOURCES_CONTENT")
  return {
    sourcemaps, sourcesContent
    logging := if level.isSome || format.isSome then some ⟨level, format⟩ else none }

/-- The stem of the variables that are looked at unless another is named. -/
def defaultStem : String := "ESPOWER_LOADER"

/-! ### Kinds of sources -/

namespace Source

/-- The built-in defaults, a layer that leaves everything open. -/
def defaults : Source where
  name := "defaults"
  precedence := .defaults
  load := .ok {}

/-- A configuration file. -/
def configFile (state : FileState) : Source where
  name := "toml-config"
  precedence := .configFile
  load := state.layer

/-- The name of the configuration file of a workspace. -/
def workspaceFile : String := "espower-loader.toml"

/-- The configuration file of a workspace, given the files in it. -/
def workspace (files : String → FileState) : Source :=
  configFile (files workspaceFile)

/-- The environment variables with the given stem. -/
def environment (environment : Environment) (stem : String) : Source where
  name := "environment"
  precedence := .environment
  load := environment.layer stem

/-- A source with a layer of its own. -/
def fixed (precedence : Precedence) (layer : Layer) : Source where
  name := "fixed"
  precedence := precedence
  load := .ok layer

end Source

/-! ### Loading -/

/-- Sources in the order they are loaded. -/
def inOrder (sources : List Source) : List Source :=
  sources.mergeSort fun a b ↦ a.precedence.rank ≤ b.precedence.rank

/-- The layers of sources merged in turn over `base`, up to the first source that gives none. -/
def mergeLayers (base : Layer) : List Source → Except Error Layer
  | [] => .ok base
  | source :: sources =>
    match source.load with
    | .ok layer => mergeLayers (base.merge layer) sources
    | .error e => .error e

/-- The configuration that sources make together. -/
def loadFrom (sources : List Source) : Except Error Config :=
  match mergeLayers {} (inOrder sources) with
  | .ok layer => .ok layer.resolve
  | .error e => .error e

/-- The configuration of the defaults and the environment. -/
def load (environment : Environment) : Except Error Config :=
  loadFrom [.defaults, .environment environment defaultStem]

/-- The configuration of the defaults, a file and the environment. -/
def loadWithFile (state : FileState) (environment : Environment) : Except Error Config :=
  loadFrom [.defaults, .configFile state, .environment environment defaultStem]

end SourceChain.Config
