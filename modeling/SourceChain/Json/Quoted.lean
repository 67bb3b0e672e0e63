import SourceChain.Json.Octets

/-!
# Quoted text in JSON

Reading the part of a quoted text that follows its opening quote. A text that is wanted is decoded:
its escapes are resolved, surrogates must come in pairs, and the octets must be UTF-8, which is
checked at the closing quote. A text that is passed over is only followed to its closing quote.
-/

namespace SourceChain.Json

/-! ### Escapes -/

/-- The value of a hexadecimal digit. -/
def hexValue? (b : UInt8) : Option Nat :=
  if isDigit b then some (b.toNat - 48)
  else if octet 'a' ≤ b ∧ b ≤ octet 'f' then some (b.toNat - 87)
  else if octet 'A' ≤ b ∧ b ≤ octet 'F' then some (b.toNat - 55)
  else none

/-- The number of four hexadecimal digits. Fewer than four octets are a text cut short, whatever
they are. -/
def hexUnit (s : List UInt8) : Except Fault (Nat × Shorter s.length) :=
  match s with
  | a :: b :: c :: d :: r =>
    match hexValue? a, hexValue? b, hexValue? c, hexValue? d with
    | some a, some b, some c, some d =>
      .ok (((a * 16 + b) * 16 + c) * 16 + d, ⟨r, by simp only [List.length_cons]; omega⟩)
    | _, _, _, _ => .error .malformed
  | _ => .error .truncated

/-- The octet that a one-letter escape stands for. -/
def shortEscape? (b : UInt8) : Option UInt8 :=
  if b = quote then some quote
  else if b = backslash then some backslash
  else if b = octet '/' then some (octet '/')
  else if b = octet 'b' then some 0x08
  else if b = octet 'f' then some 0x0C
  else if b = octet 'n' then some 0x0A
  else if b = octet 'r' then some 0x0D
  else if b = octet 't' then some 0x09
  else none

/-- Whether a UTF-16 unit is the first of a surrogate pair. -/
def isHighSurrogate (n : Nat) : Bool := 0xD800 ≤ n && n < 0xDC00

/-- Whether a UTF-16 unit is the second of a surrogate pair. -/
def isLowSurrogate (n : Nat) : Bool := 0xDC00 ≤ n && n < 0xE000

/-- The code point of a surrogate pair. -/
def pairedCode (high low : Nat) : Nat :=
  0x10000 + (high - 0xD800) * 0x400 + (low - 0xDC00)

/-- The UTF-8 octets of a code point. -/
def codeOctets (code : Nat) : List UInt8 :=
  String.utf8EncodeChar (Char.ofNat code)

/-- The second half of a surrogate pair, backslash included, and the octets of the whole pair. -/
def lowSurrogate (high : Nat) (s : List UInt8) : Except Fault (List UInt8 × Shorter s.length) :=
  match s with
  | [] => .error .truncated
  | b :: r =>
    if b ≠ backslash then .error .malformed
    else
      match r with
      | [] => .error .truncated
      | u :: r =>
        if u ≠ octet 'u' then .error .malformed
        else
          match hexUnit r with
          | .error e => .error e
          | .ok (low, ⟨rest, h⟩) =>
            if isLowSurrogate low then
              .ok (codeOctets (pairedCode high low), ⟨rest, length_lt_cons (length_lt_cons h)⟩)
            else .error .malformed

/-- The octets that an escape stands for; `s` is what follows the backslash. -/
def escape (s : List UInt8) : Except Fault (List UInt8 × Shorter s.length) :=
  match s with
  | [] => .error .truncated
  | b :: r =>
    if b = octet 'u' then
      match hexUnit r with
      | .error e => .error e
      | .ok (unit, ⟨rest, h⟩) =>
        if isLowSurrogate unit then .error .malformed
        else if isHighSurrogate unit then
          match lowSurrogate unit rest with
          | .error e => .error e
          | .ok (octets, ⟨rest', h'⟩) =>
            .ok (octets, ⟨rest', length_lt_cons (Nat.lt_trans h' h)⟩)
        else .ok (codeOctets unit, ⟨rest, length_lt_cons h⟩)
    else
      match shortEscape? b with
      | some x => .ok ([x], ⟨r, length_lt_cons_of_le (length_le_self r)⟩)
      | none => .error .malformed

/-- What is left after an escape that is passed over. -/
def skipEscape (s : List UInt8) : Except Fault (Shorter s.length) :=
  match s with
  | [] => .error .truncated
  | b :: r =>
    if b = octet 'u' then
      match hexUnit r with
      | .error e => .error e
      | .ok (_, ⟨rest, h⟩) => .ok ⟨rest, length_lt_cons h⟩
    else if (shortEscape? b).isSome then .ok ⟨r, length_lt_cons_of_le (length_le_self r)⟩
    else .error .malformed

/-! ### Whole texts -/

/-- The octets of a text up to its closing quote, after those in `done`, which holds the last one
first. -/
def quotedOctets (n : Nat) (done : List UInt8) (s : List UInt8) (h : s.length ≤ n) :
    Except Fault (List UInt8 × Shorter n) :=
  match s with
  | [] => .error .truncated
  | b :: r =>
    if b = quote then .ok (done.reverse, ⟨r, h⟩)
    else if b = backslash then
      match escape r with
      | .error e => .error e
      | .ok (octets, ⟨rest, hr⟩) =>
        quotedOctets n (octets.reverse ++ done) rest (Nat.le_of_lt (Nat.lt_trans hr h))
    else if b < 0x20 then .error .malformed
    else quotedOctets n (b :: done) r (Nat.le_of_lt h)
termination_by s.length
decreasing_by
  all_goals simp only [List.length_cons]
  all_goals omega

/-- The text up to its closing quote. -/
def quotedText (s : List UInt8) : Except Fault (String × Shorter s.length) :=
  match quotedOctets s.length [] s (length_le_self s) with
  | .error e => .error e
  | .ok (octets, rest) =>
    match String.fromUTF8? octets.toByteArray with
    | some text => .ok (text, rest)
    | none => .error .malformed

/-- What is left after the closing quote of a text that is passed over, in a loop whose text started
with `n` octets. -/
def skipQuotedFrom (n : Nat) (s : List UInt8) (h : s.length ≤ n) : Except Fault (Shorter n) :=
  match s with
  | [] => .error .truncated
  | b :: r =>
    if b = quote then .ok ⟨r, h⟩
    else if b = backslash then
      match skipEscape r with
      | .error e => .error e
      | .ok ⟨rest, hr⟩ => skipQuotedFrom n rest (Nat.le_of_lt (Nat.lt_trans hr h))
    else if b < 0x20 then .error .malformed
    else skipQuotedFrom n r (Nat.le_of_lt h)
termination_by s.length
decreasing_by
  all_goals simp only [List.length_cons]
  all_goals omega

/-- What is left after the closing quote of a text that is passed over. -/
def skipQuoted (s : List UInt8) : Except Fault (Shorter s.length) :=
  skipQuotedFrom s.length s (length_le_self s)

end SourceChain.Json
