import SourceChain.Toml.Scan

/-!
# Numbers and date-times in TOML

No option is a number or a date-time, so only the text of one is checked and its value is not kept.
An integer has to fit 64 bits, and a number with a fraction or an exponent may not be past the
largest finite binary64 number, unless it is negative.
-/

namespace SourceChain.Toml

/-! ### Digits -/

/-- The number that digits of a base stand for. -/
def valueIn (base : Nat) (digits : List Nat) : Nat :=
  digits.foldl (fun high d ↦ base * high + d) 0

/-- The value of a digit in a base up to sixteen. -/
def digitIn? (base : Nat) (c : Char) : Option Nat :=
  let value :=
    if c.isDigit then c.toNat - 48
    else if 'a' ≤ c ∧ c ≤ 'f' then c.toNat - 87
    else if 'A' ≤ c ∧ c ≤ 'F' then c.toNat - 55
    else base
  if value < base then some value else none

/-- Takes a digit. -/
def digit (base : Nat) : Scanner Nat
  | [] => none
  | c :: cs => (digitIn? base c).map fun d ↦ (d, cs)

/-- Takes one or more digits, between which single underscores may stand. -/
def digits (base : Nat) : Scanner (List Nat) := fun cs ↦
  match digit base cs with
  | none => none
  | some (d, rest) =>
    let next : Scanner Nat := fun
      | '_' :: cs => digit base cs
      | cs => digit base cs
    let (ds, rest) := many next rest
    some (d :: ds, rest)

/-- Takes exactly so many decimal digits, whose number has to lie between the bounds. -/
def fixedDigits (count low high : Nat) : Scanner Nat := fun cs ↦
  match (cs.take count).mapM (digitIn? 10) with
  | none => none
  | some ds =>
    let value := valueIn 10 ds
    if ds.length = count ∧ low ≤ value ∧ value ≤ high then some (value, cs.drop count) else none

/-! ### Numbers -/

/-- Whether a sign is a minus, and what is left after the sign. -/
def takeSign : List Char → Bool × List Char
  | '+' :: cs => (false, cs)
  | '-' :: cs => (true, cs)
  | cs => (false, cs)

/-- Takes the digits of a decimal integer, which has no leading zero. -/
def integerDigits : Scanner (List Nat)
  | '0' :: cs => some ([0], cs)
  | cs => digits 10 cs

/-- Whether a value fits 64 bits with a sign. -/
def fitsInteger (negative : Bool) (value : Nat) : Bool :=
  if negative then value ≤ Nat.pow 2 63 else value < Nat.pow 2 63

/-- Takes an integer that may not be negative, in the base of its prefix. -/
def basedInteger (base : Nat) (cs : List Char) : Option (List Char) :=
  match digits base cs with
  | none => none
  | some (ds, rest) => if fitsInteger false (valueIn base ds) then some rest else none

/-- Takes an integer. -/
def integer : List Char → Option (List Char)
  | '0' :: 'x' :: cs => basedInteger 16 cs
  | '0' :: 'o' :: cs => basedInteger 8 cs
  | '0' :: 'b' :: cs => basedInteger 2 cs
  | cs =>
    let (negative, unsigned) := takeSign cs
    match integerDigits unsigned with
    | none => none
    | some (ds, rest) => if fitsInteger negative (valueIn 10 ds) then some rest else none

/-- Whether `significand * 10 ^ exponent` rounds past the largest finite binary64 number. -/
def exceedsBinary64 (significand : Nat) (exponent : Int) : Bool :=
  let bound := Nat.pow 2 1024 - Nat.pow 2 970
  let size : Int := (Nat.toDigits 10 significand).length + exponent
  if significand = 0 ∨ size < 300 then false
  else if 400 < size then true
  else if 0 ≤ exponent then bound ≤ significand * Nat.pow 10 exponent.toNat
  else bound * Nat.pow 10 (-exponent).toNat ≤ significand

/-- Takes the digits after the point of a fraction. -/
def fraction : Scanner (List Nat)
  | '.' :: cs => digits 10 cs
  | _ => none

/-- Takes an exponent. -/
def exponent : Scanner Int
  | [] => none
  | c :: cs =>
    if c = 'e' ∨ c = 'E' then
      let (negative, unsigned) := takeSign cs
      (digits 10 unsigned).map fun (ds, rest) ↦
        let value : Int := valueIn 10 ds
        (if negative then -value else value, rest)
    else none

/-- Takes a number with a fraction, an exponent or both. -/
def decimal (cs : List Char) : Option (List Char) :=
  let (negative, unsigned) := takeSign cs
  match integerDigits unsigned with
  | none => none
  | some (whole, rest) =>
    let finish (ds : List Nat) (e : Int) (rest : List Char) : Option (List Char) :=
      if !negative && exceedsBinary64 (valueIn 10 (whole ++ ds)) (e - ds.length) then none
      else some rest
    match fraction rest with
    | some (ds, rest) =>
      match exponent rest with
      | some (e, rest) => finish ds e rest
      | none => finish ds 0 rest
    | none =>
      match exponent rest with
      | some (e, rest) => finish [] e rest
      | none => none

/-- Takes an infinity, or what is not a number. -/
def special (cs : List Char) : Option (List Char) :=
  let (_, unsigned) := takeSign cs
  (expect ['i', 'n', 'f'] unsigned).or (expect ['n', 'a', 'n'] unsigned)

/-! ### Date-times -/

/-- The days of a month. -/
def daysIn (year month : Nat) : Nat :=
  if month = 2 then
    if year % 4 = 0 ∧ (year % 100 ≠ 0 ∨ year % 400 = 0) then 29 else 28
  else if month ∈ [4, 6, 9, 11] then 30
  else 31

/-- Takes a date. -/
def date (cs : List Char) : Option (List Char) := do
  let (year, cs) ← fixedDigits 4 0 9999 cs
  let cs ← expect ['-'] cs
  let (month, cs) ← fixedDigits 2 1 12 cs
  let cs ← expect ['-'] cs
  let (_, cs) ← fixedDigits 2 1 (daysIn year month) cs
  return cs

/-- Takes the hour and minute of a time. -/
def hourMinute (cs : List Char) : Option (List Char) := do
  let (_, cs) ← fixedDigits 2 0 23 cs
  let cs ← expect [':'] cs
  let (_, cs) ← fixedDigits 2 0 59 cs
  return cs

/-- What is left after the fraction of a second, if there is one. -/
def skipSecondFraction : List Char → List Char
  | '.' :: c :: cs => if c.isDigit then cs.dropWhile Char.isDigit else '.' :: c :: cs
  | cs => cs

/-- Takes a time of day. Second sixty is allowed. -/
def time (cs : List Char) : Option (List Char) := do
  let cs ← hourMinute cs
  let cs ← expect [':'] cs
  let (_, cs) ← fixedDigits 2 0 60 cs
  return skipSecondFraction cs

/-- Takes the offset of a time from universal time. -/
def offset : List Char → Option (List Char)
  | [] => none
  | c :: cs =>
    if c = 'Z' ∨ c = 'z' then some cs
    else if c = '+' ∨ c = '-' then hourMinute cs
    else none

/-- Takes what may follow a date: a time of day, with or without an offset. -/
def timeAfterDate : List Char → Option (List Char)
  | [] => none
  | c :: cs =>
    if c = 'T' ∨ c = 't' ∨ c = ' ' then
      (time cs).map fun rest ↦ (offset rest).getD rest
    else none

/-- Takes a date, a time of day, or both. -/
def dateTime (cs : List Char) : Option (List Char) :=
  match date cs with
  | some rest => some ((timeAfterDate rest).getD rest)
  | none => time cs

end SourceChain.Toml
