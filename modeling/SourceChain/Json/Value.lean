/-!
# JSON values

A JSON value as a tree, and its compact text. Records keep the order of their members, which is the
order they are written in.
-/

namespace SourceChain.Json

/-- A JSON value. -/
inductive Value where
  | null
  | flag (b : Bool)
  /-- A number written without a fraction. -/
  | integer (n : Int)
  /-- The number `mantissa * 10 ^ (-scale)`, written with a fraction. -/
  | decimal (mantissa : Int) (scale : Nat)
  | text (s : String)
  | list (items : List Value)
  | record (members : List (String × Value))
deriving Repr, Inhabited

/-! ### Compact text -/

/-- One character inside quotes: the quote, the backslash and the control characters below the
space are escaped, and nothing else is. -/
def escapeChar (c : Char) : List Char :=
  match c with
  | '"' => ['\\', '"']
  | '\\' => ['\\', '\\']
  | '\x08' => ['\\', 'b']
  | '\x0c' => ['\\', 'f']
  | '\n' => ['\\', 'n']
  | '\r' => ['\\', 'r']
  | '\t' => ['\\', 't']
  | c =>
    if c.toNat < 0x20 then
      ['\\', 'u', '0', '0', Nat.digitChar (c.toNat / 16), Nat.digitChar (c.toNat % 16)]
    else [c]

/-- A text between quotes. -/
def quotedChars (text : String) : List Char :=
  '"' :: text.toList.flatMap escapeChar ++ ['"']

namespace Value

mutual

/-- The characters of a value, without any blanks. -/
def chars : Value → List Char
  | null => ['n', 'u', 'l', 'l']
  | flag true => ['t', 'r', 'u', 'e']
  | flag false => ['f', 'a', 'l', 's', 'e']
  | integer n => (toString n).toList
  | decimal mantissa scale => (toString mantissa).toList ++ ['e', '-'] ++ (toString scale).toList
  | text s => quotedChars s
  | list [] => ['[', ']']
  | list (item :: items) => '[' :: item.chars ++ itemsChars items
  | record [] => ['\x7b', '\x7d']
  | record ((key, value) :: members) =>
    '\x7b' :: quotedChars key ++ ':' :: value.chars ++ membersChars members

/-- The characters of the items after the first, up to the closing bracket. -/
def itemsChars : List Value → List Char
  | [] => [']']
  | item :: items => ',' :: item.chars ++ itemsChars items

/-- The characters of the members after the first, up to the closing brace. -/
def membersChars : List (String × Value) → List Char
  | [] => ['\x7d']
  | (key, value) :: members =>
    ',' :: quotedChars key ++ ':' :: value.chars ++ membersChars members

end

/-- The compact text of a value. -/
def render (v : Value) : String :=
  String.ofList v.chars

/-- Null in place of a value that is absent. -/
def ofOption (f : α → Value) : Option α → Value
  | some x => f x
  | none => null

end Value

end SourceChain.Json
