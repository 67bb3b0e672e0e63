import SourceChain.Segment
import SourceChain.Json.Reader
import SourceChain.Json.Value

/-!
# Positions and segments in JSON

Positions and segments as JSON records. Their fields are taken as they are: a line may be zero here,
and an index may point anywhere.
-/

namespace SourceChain

open Json (Value)
open Json.Reader (Field word32 optional record)

/-! ### Reading -/

/-- Reads a position. -/
def Position.reader : Json.Reader Position :=
  record
    [ .of "line" false word32 (·.1) fun x p ↦ (some x, p.2),
      .of "column" false word32 (·.2) fun x p ↦ (p.1, some x) ]
    ((none, none) : Option UInt32 × Option UInt32)
    fun
      | (some line, some column) => some ⟨line, column⟩
      | _ => none

/-- Reads an origin. In a record that is a list the name may be null, but not missing. -/
def Origin.reader : Json.Reader Origin :=
  record
    [ .of "source" false word32 (·.1) fun x p ↦ (some x, p.2),
      .of "position" false Position.reader (·.2.1) fun x p ↦ (p.1, some x, p.2.2),
      .of "name" false (optional word32) (·.2.2) fun x p ↦ (p.1, p.2.1, some x) ]
    ((none, none, none) : Option UInt32 × Option Position × Option (Option UInt32))
    fun
      | (some source, some position, name) => some ⟨source, position, name.getD none⟩
      | _ => none

/-- Reads a segment. In a record that is a list the origin may be null, but not missing. -/
def Segment.reader : Json.Reader Segment :=
  record
    [ .of "generated" false Position.reader (·.1) fun x p ↦ (some x, p.2),
      .of "original" false (optional Origin.reader) (·.2) fun x p ↦ (p.1, some x) ]
    ((none, none) : Option Position × Option (Option Origin))
    fun
      | (some generated, origin) => some ⟨generated, origin.getD none⟩
      | _ => none

/-! ### Writing -/

/-- A 32-bit number as a JSON value. -/
def word32Value (n : UInt32) : Value :=
  .integer n.toNat

/-- A position as a JSON value. -/
def Position.toValue (p : Position) : Value :=
  .record [("line", word32Value p.line), ("column", word32Value p.column)]

/-- An origin as a JSON value. -/
def Origin.toValue (origin : Origin) : Value :=
  .record [("source", word32Value origin.source), ("position", origin.position.toValue),
    ("name", .ofOption word32Value origin.name)]

/-- A segment as a JSON value. -/
def Segment.toValue (s : Segment) : Value :=
  .record [("generated", s.generated.toValue), ("original", .ofOption Origin.toValue s.origin)]

end SourceChain
