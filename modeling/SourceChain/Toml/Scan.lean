/-!
# Scanning TOML text

A scanner takes something from the front of a text, and may not find it. Scanners are put together
by repetition, which ends when the scanner finds nothing more or takes no character.

Here stand the parts that no construct owns: blanks, comments and the ends of lines.
-/

namespace SourceChain.Toml

/-- Takes something from the front of a text and says what is left. -/
abbrev Scanner (α : Type) := List Char → Option (α × List Char)

/-- Takes as many as there are, as long as each takes at least one character. -/
def many (item : Scanner α) (cs : List Char) : List α × List Char :=
  match item cs with
  | none => ([], cs)
  | some (x, rest) =>
    if rest.length < cs.length then
      let (xs, rest) := many item rest
      (x :: xs, rest)
    else ([], cs)
termination_by cs.length

/-- Takes items divided by a character. A divider that no item follows is left in place. -/
def divided (divider : Char) (item : Scanner α) (cs : List Char) : List α × List Char :=
  match item cs with
  | none => ([], cs)
  | some (x, rest) =>
    let next : Scanner α := fun
      | [] => none
      | c :: cs => if c = divider then item cs else none
    let (xs, rest) := many next rest
    (x :: xs, rest)

/-- Takes the given characters. -/
def expect : List Char → List Char → Option (List Char)
  | [], cs => some cs
  | _ :: _, [] => none
  | e :: es, c :: cs => if c = e then expect es cs else none

/-! ### Blanks, comments and lines -/

/-- Whether a character is a blank inside a line. -/
def isSpace (c : Char) : Bool :=
  c == ' ' || c == '\t'

/-- What is left after blanks. -/
def skipSpace (cs : List Char) : List Char :=
  cs.dropWhile isSpace

/-- Whether a character is none of the controls; a tab counts as none. -/
def isPlain (c : Char) : Bool :=
  c == '\t' || 0x20 ≤ c.toNat && c.toNat ≠ 0x7F

/-- What is left after the end of a line: a line feed, with or without a carriage return. -/
def newline? : List Char → Option (List Char)
  | '\n' :: cs => some cs
  | '\r' :: '\n' :: cs => some cs
  | _ => none

/-- What is left after a comment, if there is one. -/
def skipComment : List Char → List Char
  | '#' :: cs => cs.dropWhile isPlain
  | cs => cs

/-- What is left after a line that holds nothing more than a comment. The text may end here. -/
def endLine? (cs : List Char) : Option (List Char) :=
  match skipComment (skipSpace cs) with
  | [] => some []
  | cs => newline? cs

/-- Takes a run of blanks, a comment or the end of a line. -/
def filler : Scanner Unit
  | [] => none
  | c :: cs =>
    if isSpace c then some ((), skipSpace cs)
    else if c = '#' then some ((), cs.dropWhile isPlain)
    else (newline? (c :: cs)).map fun rest ↦ ((), rest)

/-- What is left after blanks, comments and the ends of lines. -/
def skipFiller (cs : List Char) : List Char :=
  (many filler cs).2

end SourceChain.Toml
