import SourceChain.SourceMap.Basic
import SourceChain.Json.Reader
import SourceChain.Json.Value

/-!
# Source maps as version 3 documents

The fields of a version 3 document, how they are read from JSON text or from a JSON value, and how
they are written. A document may be of any version and its mappings may be any text; both are
checked when the document is turned into a map.
-/

namespace SourceChain

namespace SourceMap

/-- The fields of a source map document. -/
structure Document where
  version : UInt32
  file : Option String
  sourceRoot : Option String
  sources : List String
  sourcesContent : Option (List (Option String))
  names : List String
  mappings : String
deriving DecidableEq, Repr

namespace Document

/-! ### Reading -/

/-- The fields of a document so far as they have been read. -/
structure Partial where
  version : Option UInt32 := none
  file : Option (Option String) := none
  sourceRoot : Option (Option String) := none
  sources : Option (List String) := none
  sourcesContent : Option (Option (List (Option String))) := none
  names : Option (List String) := none
  mappings : Option String := none
deriving DecidableEq, Repr

/-- The document, if no field is missing that has to be there. -/
def Partial.finish (p : Partial) : Option Document :=
  match p.version, p.sources, p.mappings with
  | some version, some sources, some mappings =>
    some {
      version, sources, mappings
      file := p.file.getD none
      sourceRoot := p.sourceRoot.getD none
      sourcesContent := p.sourcesContent.getD none
      names := p.names.getD [] }
  | _, _, _ => none

open Json.Reader in
/-- The fields of a document in their order. -/
def fields : List (Json.Reader.Field Partial) :=
  [ .of "version" false word32 (·.version) fun x p ↦ { p with version := some x },
    .of "file" true (optional text) (·.file) fun x p ↦ { p with file := some x },
    .of "sourceRoot" true (optional text) (·.sourceRoot) fun x p ↦ { p with sourceRoot := some x },
    .of "sources" false (list text) (·.sources) fun x p ↦ { p with sources := some x },
    .of "sourcesContent" true (optional (list (optional text))) (·.sourcesContent)
      fun x p ↦ { p with sourcesContent := some x },
    .of "names" true (list text) (·.names) fun x p ↦ { p with names := some x },
    .of "mappings" false text (·.mappings) fun x p ↦ { p with mappings := some x } ]

/-- Reads a document. -/
def reader : Json.Reader Document :=
  Json.Reader.record fields {} Partial.finish

/-! ### JSON values -/

open Json (Value)

/-- The text that a value is. -/
def textOf? : Value → Option String
  | .text s => some s
  | _ => none

/-- The unsigned integer of 32 bits that a value is. -/
def word32Of? : Value → Option UInt32
  | .integer n =>
    if 0 ≤ n ∧ n < (UInt32.size : Nat) then some (UInt32.ofNat n.toNat) else none
  | _ => none

/-- The items of a list, each taken by `item`. -/
def listOf? (item : Value → Option α) : Value → Option (List α)
  | .list items => items.mapM item
  | _ => none

/-- Nothing for null, or what `item` takes. -/
def optionalOf? (item : Value → Option α) : Value → Option (Option α)
  | .null => some none
  | v => (item v).map some

/-- A field that must be there. -/
def required (item : Value → Option α) (v : Option Value) : Option α :=
  v.bind item

/-- A field that has a value of its own if it is left out. -/
def defaulted (unset : α) (item : Value → Option α) (v : Option Value) : Option α :=
  match v with
  | none => some unset
  | some v => item v

/-- The document with the given field values. -/
def ofFields? (get : String → Option Value) : Option Document := do
  let version ← required word32Of? (get "version")
  let file ← defaulted none (optionalOf? textOf?) (get "file")
  let sourceRoot ← defaulted none (optionalOf? textOf?) (get "sourceRoot")
  let sources ← required (listOf? textOf?) (get "sources")
  let sourcesContent ←
    defaulted none (optionalOf? (listOf? (optionalOf? textOf?))) (get "sourcesContent")
  let names ← defaulted [] (listOf? textOf?) (get "names")
  let mappings ← required textOf? (get "mappings")
  return { version, file, sourceRoot, sources, sourcesContent, names, mappings }

/-- The keys of a document in the order of its fields. -/
def keys : List String :=
  fields.map (·.key)

/-- The document that a value is: a record, in which keys that are no field are passed over, or a
list of the fields in order. -/
def ofValue? : Value → Option Document
  | .record members => ofFields? fun key ↦ members.lookup key
  | .list items =>
    if items.length ≤ keys.length then ofFields? fun key ↦ (keys.zip items).lookup key else none
  | _ => none

/-- The document as a value. Fields that are absent are left out. -/
def toValue (d : Document) : Value :=
  .record <|
    [("version", .integer d.version.toNat)]
    ++ d.file.toList.map (fun file ↦ ("file", .text file))
    ++ d.sourceRoot.toList.map (fun root ↦ ("sourceRoot", .text root))
    ++ [("sources", .list (d.sources.map .text))]
    ++ d.sourcesContent.toList.map
        (fun contents ↦ ("sourcesContent", .list (contents.map (Value.ofOption .text))))
    ++ [("names", .list (d.names.map .text)), ("mappings", .text d.mappings)]

end Document

/-! ### Maps and their documents -/

/-- The only version that is read and written. -/
def supportedVersion : UInt32 := 3

/-- The map of a document. -/
def ofDocument (d : Document) : Except Error SourceMap :=
  if d.version ≠ supportedVersion then .error (.version d.version)
  else
    match Mappings.decode d.mappings with
    | .error e => .error (.mappings e)
    | .ok mappings =>
      ofParts {
        file := d.file
        sourceRoot := d.sourceRoot
        paths := d.sources
        contents := d.sourcesContent.getD []
        names := d.names
        segments := mappings.toList }

/-- Reads a map from the octets of a JSON text. -/
def ofOctets (octets : List UInt8) : Except Error SourceMap :=
  match Json.decode Document.reader octets with
  | .error fault => .error (.json fault)
  | .ok d => ofDocument d

/-- Reads a map from a JSON text. -/
def ofText (text : String) : Except Error SourceMap :=
  ofOctets (Json.octetsOf text)

/-- Reads a map from a JSON value. -/
def ofValue (v : Json.Value) : Except Error SourceMap :=
  match Document.ofValue? v with
  | none => .error (.json .mismatched)
  | some d => ofDocument d

/-- The mappings text of a map. -/
def encodedMappings (m : SourceMap) : String :=
  Mappings.encode m.segments

/-- The document of a map. Contents are there only if some source is embedded. -/
def toDocument (m : SourceMap) : Document where
  version := supportedVersion
  file := m.file
  sourceRoot := m.sourceRoot
  sources := m.sources.toList.map Source.path
  sourcesContent :=
    if m.hasContents then some (m.sources.toList.map Source.content) else none
  names := m.names.toList
  mappings := m.encodedMappings

/-- The map as a JSON value. -/
def toValue (m : SourceMap) : Json.Value :=
  m.toDocument.toValue

/-- The map as compact JSON text. -/
def toText (m : SourceMap) : String :=
  m.toValue.render

end SourceMap

end SourceChain
