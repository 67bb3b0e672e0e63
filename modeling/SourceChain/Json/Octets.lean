/-!
# Octets of a JSON text

A JSON text is read from its octets, left to right and only once, and the first octet that rules
the text out decides the fault. This module holds what all readers share: the faults, the octets
that JSON gives a meaning, blanks and keywords.

What is left of a text after something was read carries a bound on its length, so that a loop over
items ends because each item takes at least one octet.
-/

namespace SourceChain.Json

/-- What is wrong with a text that was to hold a value of some shape. -/
inductive Fault where
  /-- The text ends inside the value. -/
  | truncated
  /-- The text is not JSON, or something follows the value. -/
  | malformed
  /-- The text is JSON so far, but of another shape. -/
  | mismatched
deriving DecidableEq, Repr

/-- A run of fewer than `n` octets. -/
abbrev Shorter (n : Nat) := { r : List UInt8 // r.length < n }

/-- A run of at most `n` octets. -/
abbrev AtMost (n : Nat) := { r : List UInt8 // r.length ≤ n }

/-! ### Lengths

Reading an octet takes `b :: r` to `r`. Each lemma compares what is left, `q`, with the text that
reading started from. -/

theorem length_le_self (s : List UInt8) : s.length ≤ s.length :=
  Nat.le_refl _

theorem length_lt_cons {b : UInt8} {q r : List UInt8} (h : q.length < r.length) :
    q.length < (b :: r).length :=
  Nat.lt_succ_of_lt h

theorem length_lt_cons_of_le {b : UInt8} {q r : List UInt8} (h : q.length ≤ r.length) :
    q.length < (b :: r).length :=
  Nat.lt_succ_of_le h

theorem length_le_cons {b : UInt8} {q r : List UInt8} (h : q.length ≤ r.length) :
    q.length ≤ (b :: r).length :=
  Nat.le_succ_of_le h

theorem length_lt_of_lt_cons {b : UInt8} {q r s : List UInt8} (hq : q.length < (b :: r).length)
    (h : (b :: r).length ≤ s.length) : q.length < s.length :=
  Nat.lt_of_lt_of_le hq h

theorem length_lt_of_cons {b : UInt8} {q r s : List UInt8} (hq : q.length < r.length)
    (h : (b :: r).length ≤ s.length) : q.length < s.length :=
  Nat.lt_trans hq h

theorem length_lt_of_cons_of_le {b : UInt8} {q r s : List UInt8} (hq : q.length ≤ r.length)
    (h : (b :: r).length ≤ s.length) : q.length < s.length :=
  Nat.lt_of_le_of_lt hq h

/-! ### Octets with a meaning -/

/-- The octet `"`. -/
@[match_pattern] abbrev quote : UInt8 := 0x22
/-- The octet `\`. -/
@[match_pattern] abbrev backslash : UInt8 := 0x5C
/-- The octet `,`. -/
@[match_pattern] abbrev comma : UInt8 := 0x2C
/-- The octet `:`. -/
@[match_pattern] abbrev colon : UInt8 := 0x3A
/-- The octet `[`. -/
@[match_pattern] abbrev openList : UInt8 := 0x5B
/-- The octet `]`. -/
@[match_pattern] abbrev closeList : UInt8 := 0x5D
/-- The octet `{`. -/
@[match_pattern] abbrev openRecord : UInt8 := 0x7B
/-- The octet `}`. -/
@[match_pattern] abbrev closeRecord : UInt8 := 0x7D
/-- The octet `-`. -/
@[match_pattern] abbrev minus : UInt8 := 0x2D
/-- The octet `+`. -/
@[match_pattern] abbrev plus : UInt8 := 0x2B
/-- The octet `.`. -/
@[match_pattern] abbrev point : UInt8 := 0x2E

/-- The octet of an ASCII character. -/
def octet (c : Char) : UInt8 :=
  c.toUInt8

/-- Whether an octet is a decimal digit. -/
def isDigit (b : UInt8) : Bool :=
  octet '0' ≤ b && b ≤ octet '9'

/-- Whether an octet is a blank of JSON. -/
def isBlank (b : UInt8) : Bool :=
  b == 0x20 || b == 0x0A || b == 0x0D || b == 0x09

/-! ### Blanks and keywords -/

/-- What is left after the blanks at the front. -/
def skipBlanks (s : List UInt8) : AtMost s.length :=
  ⟨s.dropWhile isBlank, (List.dropWhile_suffix isBlank).length_le⟩

/-- What is left after the given characters, in a loop whose text started with `n` octets. -/
def keywordFrom (n : Nat) : List Char → (s : List UInt8) → s.length ≤ n → Except Fault (AtMost n)
  | [], s, h => .ok ⟨s, h⟩
  | _ :: _, [], _ => .error .truncated
  | c :: cs, b :: s, h =>
    if b = octet c then keywordFrom n cs s (Nat.le_of_lt h) else .error .malformed

/-- What is left after the given characters. -/
def keyword (cs : List Char) (s : List UInt8) : Except Fault (AtMost s.length) :=
  keywordFrom s.length cs s (length_le_self s)

/-- What is left after a colon. -/
def skipColon (s : List UInt8) : Except Fault (Shorter s.length) :=
  match skipBlanks s with
  | ⟨[], _⟩ => .error .truncated
  | ⟨b :: r, h⟩ =>
    if b = colon then .ok ⟨r, h⟩ else .error .malformed

end SourceChain.Json
