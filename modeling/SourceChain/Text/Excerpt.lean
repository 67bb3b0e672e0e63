/-!
# Excerpts

A line of a text with some lines before and after it. A line ends with a line feed, with or without
a carriage return before it, and the last line needs no end. Lines count from one, and line zero
means the first as well.

Line numbers and widths are 64-bit words. The place where an excerpt stops is computed in such a
word too, so a width close to the largest word is refused.
-/

namespace SourceChain.Text

/-- A line of a text and its surroundings. -/
structure Excerpt where
  /-- The lines before. -/
  before : List String
  /-- The line itself. -/
  line : String
  /-- The lines after. -/
  after : List String
deriving DecidableEq, Repr

/-- A line without the carriage return at its end. -/
def dropReturn (cs : List Char) : List Char :=
  if cs.getLast? = some '\r' then cs.dropLast else cs

/-- The lines of a text, given the runs between its line feeds. What follows the last line feed is a
line only if it is not empty, and keeps its carriage return. -/
def linesOfRuns : List (List Char) → List (List Char)
  | [] => []
  | [last] => if last = [] then [] else [last]
  | run :: runs => dropReturn run :: linesOfRuns runs

/-- The lines of a text. -/
def lines (text : String) : List String :=
  (linesOfRuns (text.toList.splitOn '\n')).map String.ofList

/-- The excerpt around a line, with up to `width` lines on each side. Past the last line it is empty.
There is none if the place after its last line has no 64-bit number. -/
def excerpt? (text : String) (line width : UInt64) : Option Excerpt :=
  let all := lines text
  let index := line.toNat - 1
  match all[index]? with
  | none => some ⟨[], "", []⟩
  | some here =>
    if index + 1 + width.toNat < UInt64.size then
      some {
        before := (all.take index).drop (index - width.toNat)
        line := here
        after := (all.drop (index + 1)).take width.toNat }
    else none

end SourceChain.Text
