import SourceChain.Json.Reader
import SourceChain.Json.Value

/-!
# Configuration layers

A layer sets some of the options and leaves the others open. Layers are merged one over another, and
what is still open at the end takes its default.
-/

namespace SourceChain.Config

/-! ### Log formats -/

/-- How log lines are laid out. -/
inductive LogFormat where
  | compact
  | pretty
  | json
deriving DecidableEq, Repr

namespace LogFormat

/-- The word for a format. -/
def word : LogFormat → String
  | compact => "compact"
  | pretty => "pretty"
  | json => "json"

/-- The formats by their words. -/
def words : List (String × LogFormat) :=
  [compact, pretty, json].map fun format ↦ (format.word, format)

/-- The format with exactly the given word. -/
def ofWord? (word : String) : Option LogFormat :=
  words.lookup word

end LogFormat

/-- Why configuration was refused. -/
inductive Error where
  /-- The file is there but is no UTF-8 text. -/
  | unreadableFile
  /-- The file does not hold a layer. -/
  | malformedFile
  /-- A text, given in lower case, is the word for no log format. -/
  | unknownLogFormat (text : String)
  /-- The variable is set to a text that is neither yes nor no. -/
  | notBoolean (key value : String)
deriving DecidableEq, Repr

/-- The wording of a refusal. -/
def Error.message : Error → String
  | unreadableFile => "failed to read config file"
  | malformedFile => "TOML parse error"
  | unknownLogFormat text => s!"Invalid value for logging.format: unknown log format '{text}'"
  | notBoolean key value =>
    s!"Invalid value for {key}: expected a boolean, got '{value}'"

/-- Reads the word for a log format in any case. -/
def LogFormat.parse (text : String) : Except Error LogFormat :=
  match ofWord? text.toLower with
  | some format => .ok format
  | none => .error (.unknownLogFormat text.toLower)

/-! ### Layers -/

/-- What a layer says about logging. -/
structure LoggingLayer where
  /-- The directive that says what is logged. -/
  level : Option String := none
  /-- How log lines are laid out. -/
  format : Option LogFormat := none
deriving DecidableEq, Repr

/-- What a layer says. -/
structure Layer where
  /-- Whether source maps are made at all. -/
  sourcemaps : Option Bool := none
  /-- Whether composed maps embed their sources. -/
  sourcesContent : Option Bool := none
  /-- What the layer says about logging. -/
  logging : Option LoggingLayer := none
deriving DecidableEq, Repr

/-- One layer over another: what `upper` leaves open is as in `base`. -/
def LoggingLayer.merge (base upper : LoggingLayer) : LoggingLayer where
  level := upper.level.or base.level
  format := upper.format.or base.format

/-- Merges values of which either may be absent. -/
def mergeOptional (merge : α → α → α) : Option α → Option α → Option α
  | some base, some upper => some (merge base upper)
  | none, upper => upper
  | base, none => base

/-- One layer over another: what `upper` leaves open is as in `base`. -/
def Layer.merge (base upper : Layer) : Layer where
  sourcemaps := upper.sourcemaps.or base.sourcemaps
  sourcesContent := upper.sourcesContent.or base.sourcesContent
  logging := mergeOptional LoggingLayer.merge base.logging upper.logging

theorem LoggingLayer.merge_assoc (a b c : LoggingLayer) :
    (a.merge b).merge c = a.merge (b.merge c) := by
  simp [LoggingLayer.merge, Option.or_assoc]

@[simp] theorem mergeOptional_none_left (merge : α → α → α) (upper : Option α) :
    mergeOptional merge none upper = upper := by
  cases upper <;> rfl

@[simp] theorem mergeOptional_none_right (merge : α → α → α) (base : Option α) :
    mergeOptional merge base none = base := by
  cases base <;> rfl

@[simp] theorem Layer.empty_merge (upper : Layer) : Layer.merge {} upper = upper := by
  simp [Layer.merge]

@[simp] theorem Layer.merge_empty (base : Layer) : base.merge {} = base := by
  simp [Layer.merge]

theorem Layer.merge_assoc (a b c : Layer) : (a.merge b).merge c = a.merge (b.merge c) := by
  simp only [Layer.merge, Option.or_assoc, mk.injEq, true_and]
  rcases a.logging with _ | _ <;> rcases b.logging with _ | _ <;> rcases c.logging with _ | _ <;>
    simp [mergeOptional, LoggingLayer.merge_assoc]

/-! ### Resolved configuration -/

/-- Resolved logging options. -/
structure Logging where
  /-- The directive that says what is logged. -/
  level : String := "info"
  /-- How log lines are laid out. -/
  format : LogFormat := .compact
deriving DecidableEq, Repr

/-- The logging options with every default filled in. -/
def LoggingLayer.resolve (layer : LoggingLayer) : Logging where
  level := layer.level.getD ({} : Logging).level
  format := layer.format.getD ({} : Logging).format

end SourceChain.Config

namespace SourceChain

/-- Resolved configuration. -/
structure Config where
  /-- Whether source maps are made at all. -/
  sourcemaps : Bool := true
  /-- Whether composed maps embed their sources. -/
  sourcesContent : Bool := true
  /-- The logging options. -/
  logging : Config.Logging := {}
deriving DecidableEq, Repr

end SourceChain

namespace SourceChain.Config

/-- The configuration with every default filled in. -/
def Layer.resolve (layer : Layer) : Config where
  sourcemaps := layer.sourcemaps.getD ({} : Config).sourcemaps
  sourcesContent := layer.sourcesContent.getD ({} : Config).sourcesContent
  logging := (layer.logging.getD {}).resolve

/-! ### JSON -/

open Json.Reader in
/-- Reads what a layer says about logging. A record that is a list has both fields. -/
def LoggingLayer.reader : Json.Reader LoggingLayer :=
  record
    [ .of "level" false (optional text) (·.1) fun x p ↦ (some x, p.2),
      .of "format" false (optional (choice LogFormat.words)) (·.2) fun x p ↦ (p.1, some x) ]
    ((none, none) : Option (Option String) × Option (Option LogFormat))
    fun p ↦ some ⟨p.1.getD none, p.2.getD none⟩

open Json.Reader in
/-- Reads a layer. -/
def Layer.reader : Json.Reader Layer :=
  record
    [ .of "sourcemaps" true (optional flag) (·.1) fun x p ↦ (some x, p.2),
      .of "sources_content" true (optional flag) (·.2.1) fun x p ↦ (p.1, some x, p.2.2),
      .of "logging" true (optional LoggingLayer.reader) (·.2.2) fun x p ↦ (p.1, p.2.1, some x) ]
    ((none, none, none) :
      Option (Option Bool) × Option (Option Bool) × Option (Option LoggingLayer))
    fun p ↦ some ⟨p.1.getD none, p.2.1.getD none, p.2.2.getD none⟩

open Json.Reader in
/-- Reads resolved logging options, which leave nothing open. -/
def Logging.reader : Json.Reader Logging :=
  record
    [ .of "level" false text (·.1) fun x p ↦ (some x, p.2),
      .of "format" false (choice LogFormat.words) (·.2) fun x p ↦ (p.1, some x) ]
    ((none, none) : Option String × Option LogFormat)
    fun
      | (some level, some format) => some ⟨level, format⟩
      | _ => none

/-- Resolved logging options as a JSON value. -/
def Logging.toValue (logging : Logging) : Json.Value :=
  .record [("level", .text logging.level), ("format", .text logging.format.word)]

end SourceChain.Config
