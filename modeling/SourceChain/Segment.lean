import SourceChain.Position

/-!
# Mapping segments

A segment ties a position of the generated buffer to the place it came from. Sources and names are
given by their index in the map that holds the segment, so a segment means something only together
with that map.
-/

namespace SourceChain

/-- Where a generated position came from. -/
structure Origin where
  /-- The index of the source in the sources of the map. -/
  source : UInt32
  /-- The position in that source. -/
  position : Position
  /-- The index of the identifier in the names of the map, if there is one. -/
  name : Option UInt32
deriving DecidableEq, Repr

/-- A generated position and where it came from.

A segment without an origin marks generated text that no source has; it ends the range of the
segment before it. -/
structure Segment where
  /-- The position in the generated buffer. -/
  generated : Position
  /-- Where it came from; nothing for text that was only generated. -/
  origin : Option Origin
deriving DecidableEq, Repr

namespace Segment

/-- Whether the segment points at a source. -/
def isMapped (s : Segment) : Bool :=
  s.origin.isSome

end Segment

end SourceChain
