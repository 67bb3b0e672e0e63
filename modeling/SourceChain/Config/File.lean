import SourceChain.Config.Layer
import SourceChain.Toml.Document

/-!
# Configuration files

A configuration file is a TOML document. Keys that are no option are passed over, and an option of
the wrong kind refuses the file. A file that is missing says nothing.
-/

namespace SourceChain.Config

open Toml (Item Entries)

/-! ### Layers in documents -/

/-- An option that may be left out. -/
def optional? (read : Item → Option α) : Option Item → Option (Option α)
  | none => some none
  | some item => (read item).map some

/-- The truth value that an item is. -/
def flagOf? : Item → Option Bool
  | .flag b => some b
  | _ => none

/-- The text that an item is. -/
def textOf? : Item → Option String
  | .text s => some s
  | _ => none

/-- Whether an item is an array or a table with nothing in it. -/
def isEmptyContainer : Item → Bool
  | .array items => items.isEmpty
  | .inline _ entries => entries.isEmpty
  | .table _ entries => entries.isEmpty
  | .tables elements => elements.isEmpty
  | _ => false

/-- The format that the only key of a table names, if there is nothing under it. -/
def formatOfEntries? : Entries → Option LogFormat
  | [(word, item)] => if isEmptyContainer item then LogFormat.ofWord? word else none
  | _ => none

/-- The log format that an item is: its word, or a table whose only key is the word. -/
def formatOf? : Item → Option LogFormat
  | .text word => LogFormat.ofWord? word
  | .inline _ entries => formatOfEntries? entries
  | .table _ entries => formatOfEntries? entries
  | _ => none

/-- What a table says about logging. -/
def loggingOfEntries? (entries : Entries) : Option LoggingLayer := do
  let level ← optional? textOf? (entries.lookup "level")
  let format ← optional? formatOf? (entries.lookup "format")
  return { level, format }

/-- What an item says about logging. An array gives both options in order, and a date-time is taken
for a table without options. -/
def loggingOf? : Item → Option LoggingLayer
  | .table _ entries => loggingOfEntries? entries
  | .inline _ entries => loggingOfEntries? entries
  | .array (level :: format :: _) => do
    let level ← textOf? level
    let format ← formatOf? format
    return { level, format }
  | .moment => some {}
  | _ => none

/-- The layer that a document holds. -/
def Layer.ofEntries? (entries : Entries) : Option Layer := do
  let sourcemaps ← optional? flagOf? (entries.lookup "sourcemaps")
  let sourcesContent ← optional? flagOf? (entries.lookup "sources_content")
  let logging ← optional? loggingOf? (entries.lookup "logging")
  return { sourcemaps, sourcesContent, logging }

/-- The layer that a TOML text holds. -/
def Layer.ofText? (text : String) : Option Layer :=
  (Toml.parse? text).bind Layer.ofEntries?

/-! ### Files -/

/-- What is found where a configuration file may be. -/
inductive FileState where
  | missing
  | directory
  | file (octets : ByteArray)

/-- The layer that a configuration file gives. -/
def FileState.layer : FileState → Except Error Layer
  | missing => .ok {}
  | directory => .error .unreadableFile
  | file octets =>
    match String.fromUTF8? octets with
    | none => .error .unreadableFile
    | some text =>
      match Layer.ofText? text with
      | none => .error .malformedFile
      | some layer => .ok layer

end SourceChain.Config
