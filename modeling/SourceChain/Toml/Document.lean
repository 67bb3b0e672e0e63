import SourceChain.Toml.Item

/-!
# TOML documents

A document is read in two steps: its lines into statements, and the statements into a table. A
header is entered when the next one, or the end, is reached; until then its entries are collected
apart from the rest.
-/

namespace SourceChain.Toml

/-- What a line of a document says. -/
inductive Statement where
  /-- The entries that follow belong to this table. -/
  | header (path : List String) (last : String)
  /-- The entries that follow belong to a new table in this array. -/
  | arrayHeader (path : List String) (last : String)
  /-- An entry. -/
  | entry (path : List String) (last : String) (item : Item)
deriving Repr

/-! ### Lines -/

/-- A key as the way to its last part, and that part. -/
def splitLast : List String → Option (List String × String)
  | [] => none
  | [last] => some ([], last)
  | first :: path => (splitLast path).map fun (way, last) ↦ (first :: way, last)

/-- Takes a header from after its opening brackets. -/
def headerLine (close : List Char) (make : List String → String → Statement) :
    Scanner Statement := fun cs ↦ do
  let (parts, cs) ← key cs
  let (way, last) ← splitLast parts
  let cs ← expect close cs
  let cs ← endLine? cs
  return (make way last, cs)

/-- Takes a line with an entry. -/
def entryLine : Scanner Statement := fun cs ↦ do
  let ((parts, item), cs) ← assignment (value depthLimit) cs
  let (way, last) ← splitLast parts
  let cs ← endLine? cs
  return (.entry way last item, cs)

/-- Takes a line, and says what it states, if anything. -/
def line : Scanner (Option Statement) := fun cs ↦
  let stated (found : Option (Statement × List Char)) :=
    found.map fun (s, rest) ↦ (some s, rest)
  match skipSpace cs with
  | [] => none
  | '#' :: cs => (endLine? ('#' :: cs)).map fun rest ↦ (none, rest)
  | '[' :: '[' :: cs => stated (headerLine [']', ']'] .arrayHeader cs)
  | '[' :: cs => stated (headerLine [']'] .header cs)
  | cs =>
    match newline? cs with
    | some rest => some (none, rest)
    | none => stated (entryLine cs)

/-- The character that may mark the start of a text as Unicode. -/
def byteOrderMark : Char := '\ufeff'

/-- The statements of a document. -/
def statements? (text : String) : Option (List Statement) :=
  let cs := match text.toList with
    | c :: cs => if c = byteOrderMark then cs else c :: cs
    | [] => []
  let (found, rest) := many line cs
  if skipSpace rest = [] then some (found.filterMap id) else none

/-! ### Tables -/

/-- Changes the table at the end of a path, and gives what `change` gives besides. Tables that are
missing on the way are made. Dotted keys go into no table that has a header of its own, unless it is
the last one of an array. -/
def descend (dotted : Bool) (change : Origin → Entries → Option (Entries × β)) (origin : Origin)
    (entries : Entries) : List String → Option (Entries × β)
  | [] => change origin entries
  | first :: path =>
    match entries.lookup first with
    | none =>
      let made := if dotted then Origin.dotted else .path
      (descend dotted change made [] path).map fun (sub, x) ↦
        (entries ++ [(first, .table made sub)], x)
    | some (.table origin sub) =>
      if dotted ∧ origin = .header then none
      else
        (descend dotted change origin sub path).map fun (sub, x) ↦
          (entries.replace first (.table origin sub), x)
    | some (.tables elements) =>
      match elements.getLast? with
      | none => none
      | some sub =>
        (descend dotted change .header sub path).map fun (sub, x) ↦
          (entries.replace first (.tables (elements.dropLast ++ [sub])), x)
    | some _ => none

/-- Which table entries are being collected for. -/
inductive Target where
  /-- The document itself. -/
  | root
  /-- The table of a header. -/
  | header (path : List String) (last : String)
  /-- A new table in the array of a header. -/
  | element (path : List String) (last : String)
deriving DecidableEq, Repr

/-- A document so far: all that has been entered, and the table that is being collected. -/
structure Draft where
  entered : Entries := []
  target : Target := .root
  current : Entries := []

/-- Enters the table that has been collected. -/
def Draft.enter (draft : Draft) : Option Entries :=
  match draft.target with
  | .root => some draft.current
  | .header path last =>
    (descend false
      (fun _ entries ↦ some (entries ++ [(last, .table .header draft.current)], ()))
      .header draft.entered path).map Prod.fst
  | .element path last =>
    (descend false
      (fun _ entries ↦
        match entries.lookup last with
        | some (.tables elements) =>
          some (entries.replace last (.tables (elements ++ [draft.current])), ())
        | _ => none)
      .header draft.entered path).map Prod.fst

/-- Starts on the table of a header. A table that stood only on the path of others is taken up
again; any other is there already. -/
def startHeader (entered : Entries) (path : List String) (last : String) : Option Draft :=
  (descend false
    (fun _ entries ↦
      match entries.lookup last with
      | none => some (entries, [])
      | some (.table .path sub) => some (entries.filter (·.1 ≠ last), sub)
      | some _ => none)
    .header entered path).map fun (entered, current) ↦
      { entered, target := .header path last, current }

/-- Starts on a new table in the array of a header. -/
def startElement (entered : Entries) (path : List String) (last : String) : Option Draft :=
  (descend false
    (fun _ entries ↦
      match entries.lookup last with
      | none => some (entries ++ [(last, .tables [])], ())
      | some (.tables _) => some (entries, ())
      | some _ => none)
    .header entered path).map fun (entered, _) ↦ { entered, target := .element path last }

/-- Adds an entry to the table that is being collected. A dotted key ends in a table of dotted keys,
and no key is set twice. -/
def Draft.add (draft : Draft) (path : List String) (last : String) (item : Item) : Option Draft :=
  (descend true
    (fun origin entries ↦
      if path ≠ [] ∧ origin ≠ .dotted then none
      else if (entries.lookup last).isSome then none
      else some (entries ++ [(last, item)], ()))
    .header draft.current path).map fun (current, _) ↦ { draft with current }

/-- The draft after one more statement. -/
def Draft.follow (draft : Draft) : Statement → Option Draft
  | .entry path last item => draft.add path last item
  | .header path last => draft.enter.bind fun entered ↦ startHeader entered path last
  | .arrayHeader path last => draft.enter.bind fun entered ↦ startElement entered path last

/-- The table of a document, if the text is one. -/
def parse? (text : String) : Option Entries := do
  let found ← statements? text
  let draft ← found.foldlM Draft.follow {}
  draft.enter

end SourceChain.Toml
