import SourceChain.Json.Octets

/-!
# Numbers in JSON

A number that is wanted must be an unsigned integer of at most 64 bits, written without a sign, a
fraction or an exponent; any other number is well formed but of another shape. One restriction goes
beyond the grammar: a number written as a fraction or beyond 64 bits has to be in the range of
binary64, and is malformed otherwise. The range is decided on what a reader of 64-bit integers sees:
the leading digits as far as 64 bits hold them, scaled by a power of ten.

A number that is passed over is only followed to its end.
-/

namespace SourceChain.Json

/-! ### The range of binary64 -/

/-- A number rounded to 53 significant bits; a tie goes to the even neighbour. -/
def round53 (n : Nat) : Nat :=
  if n < Nat.pow 2 53 then n
  else
    let unit := Nat.pow 2 (n.log2 - 52)
    let quotient := n / unit
    let twice := 2 * (n % unit)
    let up := unit < twice || (twice == unit && quotient % 2 == 1)
    (if up then quotient + 1 else quotient) * unit

/-- Whether `significand * 10 ^ exponent`, rounded in each of its steps, is past the largest finite
binary64 number. -/
def exceedsBinary64 (significand : Nat) (exponent : Int) : Bool :=
  significand != 0 && 0 ≤ exponent
    && (308 < exponent
      || Nat.pow 2 1024 ≤ round53 (round53 significand * round53 (Nat.pow 10 exponent.toNat)))

/-! ### Digits -/

/-- The digits at the front, and what is left after them. -/
def takeDigits (s : List UInt8) : List UInt8 × AtMost s.length :=
  (s.takeWhile isDigit, ⟨s.dropWhile isDigit, (List.dropWhile_suffix isDigit).length_le⟩)

/-- The number that digits continue `high` to, as far as 64 bits hold it, and how many digits are
left over. -/
def absorb (high : Nat) : List UInt8 → Nat × Nat
  | [] => (high, 0)
  | d :: ds =>
    let next := 10 * high + (d.toNat - 48)
    if next < UInt64.size then absorb next ds else (high, ds.length + 1)

/-- The number that digits stand for. -/
def digitsValue (ds : List UInt8) : Nat :=
  ds.foldl (fun high d ↦ 10 * high + (d.toNat - 48)) 0

/-! ### Numbers that are wanted -/

/-- The rest after a number that is no plain integer, if it is in the range of binary64. -/
def inexact {n : Nat} (significand : Nat) (exponent : Int) (rest : AtMost n) :
    Except Fault (Option Nat × AtMost n) :=
  if exceedsBinary64 significand exponent then .error .malformed else .ok (none, rest)

/-- Reads what follows the letter of an exponent. -/
def exponentPart (significand : Nat) (exponent : Int) (s : List UInt8) :
    Except Fault (Option Nat × AtMost s.length) :=
  let negative := s.head? == some minus
  let unsigned : AtMost s.length := match s with
    | b :: r =>
      if b = plus ∨ b = minus then ⟨r, length_le_cons (length_le_self r)⟩
      else ⟨b :: r, length_le_self _⟩
    | [] => ⟨[], length_le_self _⟩
  match takeDigits unsigned.val with
  | ([], _) => .error (if unsigned.val = [] then .truncated else .malformed)
  | (ds, ⟨rest, h⟩) =>
    let shift : Int := digitsValue ds
    inexact significand (if negative then exponent - shift else exponent + shift)
      ⟨rest, Nat.le_trans h unsigned.property⟩

/-- Reads what follows the point of a fraction. -/
def fractionPart (significand : Nat) (exponent : Nat) (s : List UInt8) :
    Except Fault (Option Nat × AtMost s.length) :=
  match takeDigits s with
  | ([], _) => .error (if s = [] then .truncated else .malformed)
  | (ds, ⟨rest, h⟩) =>
    let (significand, lost) := absorb significand ds
    let exponent : Int := exponent - (ds.length - lost : Nat)
    match rest with
    | b :: r =>
      if b = octet 'e' ∨ b = octet 'E' then
        match exponentPart significand exponent r with
        | .error e => .error e
        | .ok (value, ⟨rest, h'⟩) =>
          .ok (value, ⟨rest, Nat.le_of_lt (length_lt_of_cons_of_le h' h)⟩)
      else inexact significand exponent ⟨b :: r, h⟩
    | [] => inexact significand exponent ⟨[], h⟩

/-- The end of a number that is an integer; `lost` of its digits did not fit 64 bits. -/
def plainInteger {n : Nat} (negative : Bool) (significand lost : Nat) (rest : AtMost n) :
    Except Fault (Option Nat × AtMost n) :=
  if lost ≠ 0 then inexact significand lost rest
  else .ok (if negative then none else some significand, rest)

/-- Reads what follows the digits of an integer part. -/
def afterInteger (negative : Bool) (ds : List UInt8) (s : List UInt8) :
    Except Fault (Option Nat × AtMost s.length) :=
  let (significand, lost) := absorb 0 ds
  match s with
  | b :: r =>
    if b = point then
      match fractionPart significand lost r with
      | .error e => .error e
      | .ok (value, ⟨rest, h⟩) => .ok (value, ⟨rest, length_le_cons h⟩)
    else if b = octet 'e' ∨ b = octet 'E' then
      match exponentPart significand lost r with
      | .error e => .error e
      | .ok (value, ⟨rest, h⟩) => .ok (value, ⟨rest, length_le_cons h⟩)
    else plainInteger negative significand lost ⟨b :: r, length_le_self _⟩
  | [] => plainInteger negative significand lost ⟨[], length_le_self _⟩

/-- Reads a number without its sign. The value is there if the number is an unsigned integer. -/
def unsignedNumeral (negative : Bool) (s : List UInt8) :
    Except Fault (Option Nat × Shorter s.length) :=
  match s with
  | [] => .error .truncated
  | b :: r =>
    if b = octet '0' then
      if (r.head?.map isDigit).getD false then .error .malformed
      else
        match afterInteger negative [b] r with
        | .error e => .error e
        | .ok (value, ⟨rest, h⟩) => .ok (value, ⟨rest, length_lt_cons_of_le h⟩)
    else if isDigit b then
      match takeDigits r with
      | (ds, ⟨rest, h⟩) =>
        match afterInteger negative (b :: ds) rest with
        | .error e => .error e
        | .ok (value, ⟨rest', h'⟩) =>
          .ok (value, ⟨rest', length_lt_cons_of_le (Nat.le_trans h' h)⟩)
    else .error .malformed

/-- Whether an octet can start a number. -/
def startsNumber (b : UInt8) : Bool :=
  b == minus || isDigit b

/-- Reads a number. The value is there if the number is an unsigned integer of 64 bits. -/
def numeral (s : List UInt8) : Except Fault (Option Nat × Shorter s.length) :=
  match s with
  | b :: r =>
    if b = minus then
      match unsignedNumeral true r with
      | .error e => .error e
      | .ok (value, ⟨rest, h⟩) => .ok (value, ⟨rest, length_lt_cons h⟩)
    else unsignedNumeral false (b :: r)
  | [] => .error .truncated

/-! ### Numbers that are passed over -/

/-- What is left after one or more digits. -/
def skipDigits (s : List UInt8) : Except Fault (AtMost s.length) :=
  match takeDigits s with
  | ([], _) => .error .malformed
  | (_, rest) => .ok rest

/-- What is left after an exponent, if there is one. -/
def skipExponent (s : List UInt8) : Except Fault (AtMost s.length) :=
  match s with
  | [] => .ok ⟨[], length_le_self _⟩
  | b :: r =>
    if b = octet 'e' ∨ b = octet 'E' then
      let unsigned : AtMost r.length := match r with
        | c :: r' =>
          if c = plus ∨ c = minus then ⟨r', length_le_cons (length_le_self r')⟩
          else ⟨c :: r', length_le_self _⟩
        | [] => ⟨[], length_le_self _⟩
      match skipDigits unsigned.val with
      | .error e => .error e
      | .ok ⟨rest, h⟩ => .ok ⟨rest, length_le_cons (Nat.le_trans h unsigned.property)⟩
    else .ok ⟨b :: r, length_le_self _⟩

/-- What is left after a fraction and an exponent, so far as there are any. -/
def skipFraction (s : List UInt8) : Except Fault (AtMost s.length) :=
  match s with
  | [] => .ok ⟨[], length_le_self _⟩
  | b :: r =>
    if b = point then
      match skipDigits r with
      | .error e => .error e
      | .ok ⟨rest, h⟩ =>
        match skipExponent rest with
        | .error e => .error e
        | .ok ⟨rest', h'⟩ => .ok ⟨rest', length_le_cons (Nat.le_trans h' h)⟩
    else skipExponent (b :: r)

/-- What is left after a number without its sign. A text that ends inside is malformed. -/
def skipNumeral (s : List UInt8) : Except Fault (Shorter s.length) :=
  match s with
  | [] => .error .malformed
  | b :: r =>
    if b = octet '0' then
      if (r.head?.map isDigit).getD false then .error .malformed
      else
        match skipFraction r with
        | .error e => .error e
        | .ok ⟨rest, h⟩ => .ok ⟨rest, length_lt_cons_of_le h⟩
    else if isDigit b then
      match takeDigits r with
      | (_, ⟨rest, h⟩) =>
        match skipFraction rest with
        | .error e => .error e
        | .ok ⟨rest', h'⟩ => .ok ⟨rest', length_lt_cons_of_le (Nat.le_trans h' h)⟩
    else .error .malformed

end SourceChain.Json
