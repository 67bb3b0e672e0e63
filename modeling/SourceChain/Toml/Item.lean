import SourceChain.Toml.Quoted
import SourceChain.Toml.Number

/-!
# TOML items

The tree that a document is read into, and the values that stand after an equals sign.

A table remembers how it came to be, because that decides what may be added to it later: a table
with a header of its own is finished once, a table that only stands on the path of a header may
still get one, and a table that dotted keys made is only for dotted keys.
-/

namespace SourceChain.Toml

/-- How a table came to be. -/
inductive Origin where
  /-- It has a header of its own. -/
  | header
  /-- It stands on the path of a header. -/
  | path
  /-- Dotted keys made it. -/
  | dotted
deriving DecidableEq, Repr

/-- A node of a document. -/
inductive Item where
  | text (s : String)
  | flag (b : Bool)
  /-- A number. -/
  | number
  /-- A date, a time of day or both. -/
  | moment
  | array (items : List Item)
  /-- A table between braces, or one that dotted keys made in such a table. -/
  | inline (dotted : Bool) (entries : List (String × Item))
  | table (origin : Origin) (entries : List (String × Item))
  /-- The tables of one array header, in order. -/
  | tables (elements : List (List (String × Item)))
deriving Repr, Inhabited

/-- The entries of a table in the order they were made. -/
abbrev Entries := List (String × Item)

/-- The entries with another item under a key that is there. -/
def Entries.replace (entries : Entries) (key : String) (item : Item) : Entries :=
  entries.map fun (k, old) ↦ if k = key then (k, item) else (k, old)

/-- How deep arrays and inline tables may nest, and how many parts a key may have. -/
def depthLimit : Nat := 79

/-! ### Keys -/

/-- Whether a character may stand in a key without quotes. -/
def isBare (c : Char) : Bool :=
  c.isAlphanum || c == '-' || c == '_'

/-- Takes one part of a key. -/
def keyPart : Scanner String := fun cs ↦
  match cs.takeWhile isBare with
  | [] => lineText cs
  | bare => some (String.ofList bare, cs.dropWhile isBare)

/-- Takes a key, which has one or more parts with dots between them. -/
def key : Scanner (List String) := fun cs ↦
  let part : Scanner String := fun cs ↦
    (keyPart (skipSpace cs)).map fun (k, rest) ↦ (k, skipSpace rest)
  match divided '.' part cs with
  | ([], _) => none
  | (parts, rest) => if parts.length ≤ depthLimit then some (parts, rest) else none

/-! ### Values -/

/-- Takes a value that holds no others. -/
def scalar : Scanner Item := fun cs ↦
  let number (rest : Option (List Char)) := rest.map fun rest ↦ (Item.number, rest)
  match cs with
  | [] => none
  | c :: _ =>
    if c = basicQuote ∨ c = literalQuote then
      (quotedText cs).map fun (s, rest) ↦ (.text s, rest)
    else if c = '+' ∨ c = '-' ∨ c.isDigit then
      match dateTime cs with
      | some rest => some (.moment, rest)
      | none => number ((decimal cs).or ((special cs).or (integer cs)))
    else if c = 't' then
      (expect ['t', 'r', 'u', 'e'] cs).map fun rest ↦ (.flag true, rest)
    else if c = 'f' then
      (expect ['f', 'a', 'l', 's', 'e'] cs).map fun rest ↦ (.flag false, rest)
    else number (special cs)

/-- Takes an array from after its opening bracket. -/
def arrayItems (item : Scanner Item) : Scanner Item := fun cs ↦
  let element : Scanner Item := fun cs ↦
    (item (skipFiller cs)).map fun (x, rest) ↦ (x, skipFiller rest)
  let (items, rest) := divided ',' element cs
  let rest := if items.isEmpty then rest else (expect [','] rest).getD rest
  (expect [']'] (skipFiller rest)).map fun rest ↦ (.array items, rest)

/-- Adds an entry under a key with several parts to an inline table. Only tables that dotted keys
made are gone into, and no key is set twice. -/
def insertInline (entries : Entries) (item : Item) : List String → Option Entries
  | [] => none
  | [last] => if (entries.lookup last).isSome then none else some (entries ++ [(last, item)])
  | first :: path =>
    match entries.lookup first with
    | none => (insertInline [] item path).map fun sub ↦ entries ++ [(first, .inline true sub)]
    | some (.inline true sub) =>
      (insertInline sub item path).map fun sub ↦ entries.replace first (.inline true sub)
    | some _ => none

/-- Takes a key, an equals sign and a value. -/
def assignment (value : Scanner Item) : Scanner (List String × Item) := fun cs ↦ do
  let (path, cs) ← key cs
  let cs ← expect ['='] cs
  let (item, cs) ← value (skipSpace cs)
  return ((path, item), cs)

/-- Takes an inline table from after its opening brace. -/
def inlineTable (value : Scanner Item) : Scanner Item := fun cs ↦
  let pair : Scanner (List String × Item) := fun cs ↦
    (assignment value cs).map fun (x, rest) ↦ (x, skipSpace rest)
  let (pairs, rest) := divided ',' pair cs
  match pairs.foldlM (fun entries (path, item) ↦ insertInline entries item path) [] with
  | none => none
  | some entries =>
    (expect ['\x7d'] (skipSpace rest)).map fun rest ↦ (.inline false entries, rest)

/-- Takes a value with at most so many arrays and inline tables in one another. -/
def value : (depth : Nat) → Scanner Item
  | depth + 1, '[' :: cs => arrayItems (value depth) cs
  | depth + 1, '\x7b' :: cs => inlineTable (value depth) cs
  | _, cs => scalar cs

end SourceChain.Toml
