/-!
# Decimal numerals

Reading unsigned decimal numerals. Leading zeros are allowed, and so is one plus sign; the digits
are the ten of ASCII.
-/

namespace SourceChain.Text

/-- The value of an ASCII digit. -/
def digitValue? (c : Char) : Option Nat :=
  if '0' ≤ c ∧ c ≤ '9' then some (c.toNat - '0'.toNat) else none

/-- The number that a text of ASCII digits continues `high` to. -/
def extendNatural? (high : Nat) : List Char → Option Nat
  | [] => some high
  | c :: cs =>
    match digitValue? c with
    | some d => extendNatural? (10 * high + d) cs
    | none => none

/-- The number written by one or more ASCII digits. -/
def natural? : List Char → Option Nat
  | [] => none
  | cs => extendNatural? 0 cs

/-- The number written by an optional plus sign and one or more ASCII digits, if 32 bits hold it. -/
def word32? (cs : List Char) : Option UInt32 :=
  let digits := match cs with
    | '+' :: rest => rest
    | cs => cs
  match natural? digits with
  | some n => if n < UInt32.size then some (UInt32.ofNat n) else none
  | none => none

end SourceChain.Text
