import SourceChain.Json.Skip

/-!
# Readers for the shapes of JSON values

A reader takes a value of one shape from the front of a text. Readers for records are put together
from their fields: a record may also be written as a list of its fields in order, keys that are no
field are passed over, and a key may stand only once.

The readers say what is wrong at the first octet where something is. A value of another shape is
noticed at its first octet too, but a word, number or text there is read to its end first, and a
fault in it comes before the mismatch.
-/

namespace SourceChain.Json

/-- Takes a value from the front of a text, and says what is left. -/
abbrev Reader (α : Type) := (s : List UInt8) → Except Fault (α × Shorter s.length)

/-- The fault of a value that has another shape than the one wanted. -/
def mismatchFault (s : List UInt8) : Fault :=
  let ofRead {α : Type} : Except Fault α → Fault
    | .error e => e
    | .ok _ => .mismatched
  match s with
  | [] => .malformed
  | b :: r =>
    if b = octet 'n' then ofRead (keyword ['u', 'l', 'l'] r)
    else if b = octet 't' then ofRead (keyword ['r', 'u', 'e'] r)
    else if b = octet 'f' then ofRead (keyword ['a', 'l', 's', 'e'] r)
    else if startsNumber b then ofRead (numeral (b :: r))
    else if b = quote then ofRead (quotedText r)
    else if b = openList ∨ b = openRecord then .mismatched
    else .malformed

namespace Reader

/-! ### Plain values -/

/-- Reads an unsigned integer of 32 bits. -/
def word32 : Reader UInt32 := fun s ↦
  match skipBlanks s with
  | ⟨[], _⟩ => .error .truncated
  | ⟨b :: r, h⟩ =>
    if startsNumber b then
      match numeral (b :: r) with
      | .error e => .error e
      | .ok (none, _) => .error .mismatched
      | .ok (some n, ⟨rest, hr⟩) =>
        if n < UInt32.size then .ok (UInt32.ofNat n, ⟨rest, length_lt_of_lt_cons hr h⟩)
        else .error .mismatched
    else .error (mismatchFault (b :: r))

/-- Reads a text. -/
def text : Reader String := fun s ↦
  match skipBlanks s with
  | ⟨[], _⟩ => .error .truncated
  | ⟨b :: r, h⟩ =>
    if b = quote then
      match quotedText r with
      | .error e => .error e
      | .ok (t, ⟨rest, hr⟩) => .ok (t, ⟨rest, length_lt_of_cons hr h⟩)
    else .error (mismatchFault (b :: r))

/-- Reads `true` or `false`. -/
def flag : Reader Bool := fun s ↦
  match skipBlanks s with
  | ⟨[], _⟩ => .error .truncated
  | ⟨b :: r, h⟩ =>
    if b = octet 't' then
      match keyword ['r', 'u', 'e'] r with
      | .error e => .error e
      | .ok ⟨rest, hr⟩ => .ok (true, ⟨rest, length_lt_of_cons_of_le hr h⟩)
    else if b = octet 'f' then
      match keyword ['a', 'l', 's', 'e'] r with
      | .error e => .error e
      | .ok ⟨rest, hr⟩ => .ok (false, ⟨rest, length_lt_of_cons_of_le hr h⟩)
    else .error (mismatchFault (b :: r))

/-- Reads `null`. -/
def null : Reader Unit := fun s ↦
  match skipBlanks s with
  | ⟨[], _⟩ => .error .truncated
  | ⟨b :: r, h⟩ =>
    if b = octet 'n' then
      match keyword ['u', 'l', 'l'] r with
      | .error e => .error e
      | .ok ⟨rest, hr⟩ => .ok ((), ⟨rest, length_lt_of_cons_of_le hr h⟩)
    else .error (mismatchFault (b :: r))

/-- Reads `null`, or what the given reader reads. -/
def optional (item : Reader α) : Reader (Option α) := fun s ↦
  match skipBlanks s with
  | ⟨b :: r, h⟩ =>
    if b = octet 'n' then
      match keyword ['u', 'l', 'l'] r with
      | .error e => .error e
      | .ok ⟨rest, hr⟩ => .ok (none, ⟨rest, length_lt_of_cons_of_le hr h⟩)
    else
      match item s with
      | .error e => .error e
      | .ok (x, rest) => .ok (some x, rest)
  | ⟨[], _⟩ => .error .truncated

/-! ### Lists -/

/-- Where a list or record stands before its next item. -/
inductive Next (n : Nat) where
  /-- It is closed, and this is left after it. -/
  | closed (rest : Shorter n)
  /-- Another item starts here. -/
  | item (rest : AtMost n)

/-- Looks for the next item of a list. All but the first follow a comma. -/
def nextItem (first : Bool) (s : List UInt8) : Except Fault (Next s.length) :=
  match skipBlanks s with
  | ⟨[], _⟩ => .error .truncated
  | ⟨b :: r, h⟩ =>
    if b = closeList then .ok (.closed ⟨r, h⟩)
    else if first then .ok (.item ⟨b :: r, h⟩)
    else if b = comma then
      match skipBlanks r with
      | ⟨[], _⟩ => .error .truncated
      | ⟨c :: r', h'⟩ =>
        if c = closeList then .error .malformed
        else .ok (.item ⟨c :: r', Nat.le_of_lt (length_lt_of_cons_of_le h' h)⟩)
    else .error .malformed

/-- Reads the items of a list up to its end, after those in `done`, which holds the last one
first. -/
def itemsFrom (item : Reader α) (n : Nat) (first : Bool) (done : List α) (s : List UInt8)
    (hs : s.length ≤ n) : Except Fault (List α × Shorter n) :=
  match nextItem first s with
  | .error e => .error e
  | .ok (.closed ⟨rest, h⟩) => .ok (done.reverse, ⟨rest, Nat.lt_of_lt_of_le h hs⟩)
  | .ok (.item ⟨r, h⟩) =>
    match item r with
    | .error e => .error e
    | .ok (x, ⟨rest, hr⟩) =>
      have hrest : rest.length < s.length := Nat.lt_of_lt_of_le hr h
      itemsFrom item n false (x :: done) rest (Nat.le_trans (Nat.le_of_lt hrest) hs)
termination_by s.length
decreasing_by all_goals assumption

/-- Reads a list. -/
def list (item : Reader α) : Reader (List α) := fun s ↦
  match skipBlanks s with
  | ⟨[], _⟩ => .error .truncated
  | ⟨b :: r, h⟩ =>
    if b = openList then
      match itemsFrom item r.length true [] r (length_le_self r) with
      | .error e => .error e
      | .ok (xs, ⟨rest, hr⟩) => .ok (xs, ⟨rest, length_lt_of_cons hr h⟩)
    else .error (mismatchFault (b :: r))

/-! ### Records -/

/-- A field of a record that is collected in `σ`. -/
structure Field (σ : Type) where
  /-- The key of the field. -/
  key : String
  /-- Whether a record written as a list may end before the field. -/
  trailing : Bool
  /-- Whether the field has been read. -/
  isSet : σ → Bool
  /-- Reads the value of the field. -/
  read : σ → Reader σ

/-- A field whose value is stored by `store`. -/
def Field.of (key : String) (trailing : Bool) (value : Reader α) (get : σ → Option α)
    (store : α → σ → σ) : Field σ where
  key := key
  trailing := trailing
  isSet collected := (get collected).isSome
  read collected := fun s ↦
    match value s with
    | .error e => .error e
    | .ok (x, rest) => .ok (store x collected, rest)

/-- Looks for the opening quote of the next key of a record. All but the first key follow a
comma. -/
def nextKey (first : Bool) (s : List UInt8) : Except Fault (Next s.length) :=
  match skipBlanks s with
  | ⟨[], _⟩ => .error .truncated
  | ⟨b :: r, h⟩ =>
    if b = closeRecord then .ok (.closed ⟨r, h⟩)
    else if first then
      if b = quote then .ok (.item ⟨r, Nat.le_of_lt h⟩) else .error .malformed
    else if b = comma then
      match skipBlanks r with
      | ⟨[], _⟩ => .error .truncated
      | ⟨c :: r', h'⟩ =>
        if c = quote then .ok (.item ⟨r', Nat.le_of_lt (length_lt_of_cons h' h)⟩)
        else .error .malformed
    else .error .malformed

/-- Reads the members of a record up to its end. -/
def membersFrom (fields : List (Field σ)) (n : Nat) (first : Bool) (collected : σ)
    (s : List UInt8) (hs : s.length ≤ n) : Except Fault (σ × Shorter n) :=
  match nextKey first s with
  | .error e => .error e
  | .ok (.closed ⟨rest, h⟩) => .ok (collected, ⟨rest, Nat.lt_of_lt_of_le h hs⟩)
  | .ok (.item ⟨r, h⟩) =>
    match quotedText r with
    | .error e => .error e
    | .ok (key, ⟨r₁, h₁⟩) =>
      match fields.find? (·.key == key) with
      | none =>
        match skipColon r₁ with
        | .error e => .error e
        | .ok ⟨r₂, h₂⟩ =>
          match skip r₂ with
          | .error e => .error e
          | .ok ⟨rest, hr⟩ =>
            have hrest : rest.length < s.length :=
              Nat.lt_of_lt_of_le (Nat.lt_trans hr (Nat.lt_trans h₂ h₁)) h
            membersFrom fields n false collected rest (Nat.le_trans (Nat.le_of_lt hrest) hs)
      | some field =>
        if field.isSet collected then .error .mismatched
        else
          match skipColon r₁ with
          | .error e => .error e
          | .ok ⟨r₂, h₂⟩ =>
            match field.read collected r₂ with
            | .error e => .error e
            | .ok (collected, ⟨rest, hr⟩) =>
              have hrest : rest.length < s.length :=
                Nat.lt_of_lt_of_le (Nat.lt_trans hr (Nat.lt_trans h₂ h₁)) h
              membersFrom fields n false collected rest (Nat.le_trans (Nat.le_of_lt hrest) hs)
termination_by s.length
decreasing_by all_goals assumption

/-- What is left after the end of a list that has all its items. -/
def endList (s : List UInt8) : Except Fault (Shorter s.length) :=
  match skipBlanks s with
  | ⟨[], _⟩ => .error .truncated
  | ⟨b :: r, h⟩ =>
    if b = closeList then .ok ⟨r, h⟩ else .error .malformed

/-- Reads the fields of a record that is written as a list. -/
def fieldsFrom (n : Nat) (first : Bool) (collected : σ) (s : List UInt8) (hs : s.length ≤ n) :
    List (Field σ) → Except Fault (σ × Shorter n)
  | [] =>
    match endList s with
    | .error e => .error e
    | .ok ⟨rest, h⟩ => .ok (collected, ⟨rest, Nat.lt_of_lt_of_le h hs⟩)
  | field :: fields =>
    match nextItem first s with
    | .error e => .error e
    | .ok (.closed ⟨rest, h⟩) =>
      if (field :: fields).all (·.trailing) then .ok (collected, ⟨rest, Nat.lt_of_lt_of_le h hs⟩)
      else .error .mismatched
    | .ok (.item ⟨r, h⟩) =>
      match field.read collected r with
      | .error e => .error e
      | .ok (collected, ⟨rest, hr⟩) =>
        fieldsFrom n false collected rest
          (Nat.le_trans (Nat.le_of_lt (Nat.lt_of_lt_of_le hr h)) hs) fields

/-- Reads a record; `finish` has no value if a field is missing that may not be. -/
def record (fields : List (Field σ)) (start : σ) (finish : σ → Option α) : Reader α := fun s ↦
  let finished {n : Nat} : Except Fault (σ × Shorter n) → Except Fault (α × Shorter n)
    | .error e => .error e
    | .ok (collected, rest) =>
      match finish collected with
      | some x => .ok (x, rest)
      | none => .error .mismatched
  match skipBlanks s with
  | ⟨[], _⟩ => .error .truncated
  | ⟨b :: r, h⟩ =>
    have hr : r.length ≤ s.length := Nat.le_of_lt h
    if b = openList then finished (fieldsFrom s.length true start r hr fields)
    else if b = openRecord then finished (membersFrom fields s.length true start r hr)
    else .error (mismatchFault (b :: r))

/-! ### Choices -/

/-- Reads one of the given words. Anything but a text is malformed here, whatever it is. -/
def wordOf (words : List (String × α)) : Reader α := fun s ↦
  match skipBlanks s with
  | ⟨[], _⟩ => .error .truncated
  | ⟨b :: r, h⟩ =>
    if b = quote then
      match quotedText r with
      | .error e => .error e
      | .ok (word, ⟨rest, hr⟩) =>
        match words.lookup word with
        | some x => .ok (x, ⟨rest, length_lt_of_cons hr h⟩)
        | none => .error .mismatched
    else .error .malformed

/-- Reads one of the given words, as a text, or as the key of a record whose only value is
`null`. -/
def choice (words : List (String × α)) : Reader α := fun s ↦
  match skipBlanks s with
  | ⟨b :: r, h⟩ =>
    if b = openRecord then
      match wordOf words r with
      | .error e => .error e
      | .ok (x, ⟨r₁, h₁⟩) =>
        match skipColon r₁ with
        | .error e => .error e
        | .ok ⟨r₂, h₂⟩ =>
          match null r₂ with
          | .error e => .error e
          | .ok ((), ⟨r₃, h₃⟩) =>
            match skipBlanks r₃ with
            | ⟨[], _⟩ => .error .truncated
            | ⟨c :: rest, hr⟩ =>
              if c = closeRecord then
                have hrest : rest.length < r.length :=
                  Nat.lt_trans (Nat.lt_of_lt_of_le hr (Nat.le_of_lt h₃)) (Nat.lt_trans h₂ h₁)
                .ok (x, ⟨rest, length_lt_of_cons hrest h⟩)
              else .error .malformed
    else wordOf words s
  | ⟨[], _⟩ => .error .truncated

end Reader

/-! ### Whole texts -/

/-- Reads a text that holds one value and, blanks aside, nothing else. -/
def decode (reader : Reader α) (s : List UInt8) : Except Fault α :=
  match reader s with
  | .error e => .error e
  | .ok (x, ⟨rest, _⟩) => if (skipBlanks rest).val = [] then .ok x else .error .malformed

/-- The octets of a text. -/
def octetsOf (text : String) : List UInt8 :=
  text.toUTF8.data.toList

end SourceChain.Json
