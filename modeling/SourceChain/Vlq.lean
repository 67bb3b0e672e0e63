import SourceChain.Text.Quoted

/-!
# Variable-length quantities in Base64

A number is written as digits of five bits, least significant first; a sixth bit on a digit says
that another follows. The lowest bit of the number assembled from the digits is its sign, and the
rest its magnitude.

Reading is written once for whatever numbers are assembled in (`ReadArithmetic`). What runs works on
64-bit words, in both directions. Reading admits twelve digits to a number, so the word holds sixty
bits and no addition can overflow it. Writing doubles the magnitude within the word, so a magnitude
of `2 ^ 63` loses its only bit.
-/

namespace SourceChain.Vlq

/-! ### Digits -/

/-- A Base64 digit: a six-bit number. -/
abbrev Digit := Fin 64

namespace Digit

/-- The character that stands for a digit. -/
def toChar (d : Digit) : Char :=
  if d.val < 26 then Char.ofNat (d.val + 65)
  else if d.val < 52 then Char.ofNat (d.val + 71)
  else if d.val < 62 then Char.ofNat (d.val - 4)
  else if d.val = 62 then '+'
  else '/'

/-- The digit that a character stands for. -/
def ofChar? (c : Char) : Option Digit :=
  if 'A' ≤ c ∧ c ≤ 'Z' then some (Fin.ofNat 64 (c.toNat - 65))
  else if 'a' ≤ c ∧ c ≤ 'z' then some (Fin.ofNat 64 (c.toNat - 71))
  else if '0' ≤ c ∧ c ≤ '9' then some (Fin.ofNat 64 (c.toNat + 4))
  else if c = '+' then some 62
  else if c = '/' then some 63
  else none

/-- Whether another digit of the same number follows. -/
def continues (d : Digit) : Bool :=
  32 ≤ d.val

/-- The five bits that the digit adds to its number. -/
def payload (d : Digit) : Nat :=
  d.val % 32

/-- The digit with the given five bits, and a mark if another follows. -/
def ofPayload (bits : Fin 32) (more : Bool) : Digit :=
  if more then ⟨bits.val + 32, by omega⟩ else ⟨bits.val, by omega⟩

theorem payload_ofPayload (bits : Fin 32) (more : Bool) :
    (ofPayload bits more).payload = bits := by
  decide +revert

theorem continues_ofPayload (bits : Fin 32) (more : Bool) :
    (ofPayload bits more).continues = more := by
  decide +revert

theorem ofChar?_toChar (d : Digit) : ofChar? d.toChar = some d := by
  decide +revert

theorem toChar_of_ofChar? {c : Char} {d : Digit} (h : ofChar? c = some d) : d.toChar = c := by
  have hofNat : ∀ {n : Nat}, n = c.toNat → Char.ofNat n = c := fun hn ↦ hn ▸ Char.ofNat_toNat c
  have hval : ∀ {n : Nat}, n < 64 → (Fin.ofNat 64 n).val = n := fun hn ↦ Nat.mod_eq_of_lt hn
  unfold ofChar? at h
  split at h
  next hc =>
    have hc : 65 ≤ c.toNat ∧ c.toNat ≤ 90 := hc
    obtain rfl := Option.some.inj h
    rw [toChar, hval (by omega), if_pos (by omega)]
    exact hofNat (by omega)
  split at h
  next hc =>
    have hc : 97 ≤ c.toNat ∧ c.toNat ≤ 122 := hc
    obtain rfl := Option.some.inj h
    rw [toChar, hval (by omega), if_neg (by omega), if_pos (by omega)]
    exact hofNat (by omega)
  split at h
  next hc =>
    have hc : 48 ≤ c.toNat ∧ c.toNat ≤ 57 := hc
    obtain rfl := Option.some.inj h
    rw [toChar, hval (by omega), if_neg (by omega), if_neg (by omega), if_pos (by omega)]
    exact hofNat (by omega)
  split at h
  next hc =>
    obtain rfl := Option.some.inj h
    exact hc.symm
  split at h
  next hc =>
    obtain rfl := Option.some.inj h
    exact hc.symm
  next => exact absurd h (by simp)

/-- Each digit has one character, and each character of the alphabet is that of one digit. -/
theorem ofChar?_eq_some_iff {c : Char} {d : Digit} : ofChar? c = some d ↔ c = d.toChar :=
  ⟨fun h ↦ (toChar_of_ofChar? h).symm, fun h ↦ h ▸ ofChar?_toChar d⟩

end Digit

/-! ### Reading -/

/-- Why a text is not a run of quantities. -/
inductive Error where
  /-- An octet of the text is no Base64 digit. -/
  | invalidOctet (octet : UInt8)
  /-- The text ends inside a number. -/
  | truncated (text : String)
  /-- A number has more than twelve digits. -/
  | tooLong (text : String)
deriving DecidableEq, Repr

/-- The wording of a refusal. An octet is shown as the character of that code point. -/
def Error.message : Error → String
  | invalidOctet octet => s!"Invalid VLQ character: {Char.ofUInt8 octet}"
  | truncated text => s!"Truncated VLQ value in segment {Text.quoted text}"
  | tooLong text => s!"VLQ value overflows 32 bits in segment {Text.quoted text}"

/-- How many digits a number may have. -/
def maxDigits : Nat := 12

/-- The first octet of a character in UTF-8. -/
def leadOctet (c : Char) : UInt8 :=
  (String.utf8EncodeChar c).headD 0

/-- The arithmetic that quantities are read with. Any step of it may put an end to reading. -/
structure ReadArithmetic (μ : Type → Type) (ω ν : Type) where
  /-- Adds to a word the payload of a digit with the given weight. -/
  add (word weight : ω) (payload : Nat) : μ ω
  /-- The weight of the digit behind one of the given weight. -/
  next (weight : ω) : ω
  /-- The number that an assembled word stands for: the lowest bit is the sign. -/
  value (word : ω) : μ ν
  /-- Ends reading with an error. -/
  refuse {α : Type} (e : Error) : μ α

namespace ReadArithmetic

variable {μ : Type → Type} {ω ν : Type} [OfNat ω 0] [OfNat ω 1] [Monad μ]

/-- Reads quantities from the characters of `text`, in the middle of a number that has `digits`
digits so far: they add up to `word`, and the next one has weight `weight`. -/
@[specialize]
def readFrom (arith : ReadArithmetic μ ω ν) (text : String) (word weight : ω) (digits : Nat) :
    List Char → μ (List ν)
  | [] => if digits = 0 then pure [] else arith.refuse (.truncated text)
  | c :: cs =>
    match Digit.ofChar? c with
    | none => arith.refuse (.invalidOctet (leadOctet c))
    | some d =>
      if digits = maxDigits then arith.refuse (.tooLong text)
      else do
        let word ← arith.add word weight d.payload
        if d.continues then readFrom arith text word (arith.next weight) (digits + 1) cs
        else do
          let value ← arith.value word
          let values ← readFrom arith text 0 1 0 cs
          return value :: values

/-- The quantities of a text. The leftmost octet that rules the text out decides the error. -/
@[specialize]
def read (arith : ReadArithmetic μ ω ν) (text : String) : μ (List ν) :=
  arith.readFrom text 0 1 0 text.toList

end ReadArithmetic

/-- The number that an assembled word stands for: the lowest bit is the sign. -/
def ofWord (word : Int64) : Int64 :=
  if word % 2 = 0 then word / 2 else -(word / 2)

/-- The arithmetic of 64-bit words, which wraps. -/
def words : ReadArithmetic (Except Error) Int64 Int64 where
  add word weight payload := .ok (word + Int64.ofNat payload * weight)
  next weight := weight * 32
  value word := .ok (ofWord word)
  refuse := .error

/-- Reads quantities in words, from the middle of a number on. -/
def decodeFrom (text : String) (word weight : Int64) (digits : Nat) (cs : List Char) :
    Except Error (List Int64) :=
  words.readFrom text word weight digits cs

/-- The quantities of a text, read in words. -/
def decode (text : String) : Except Error (List Int64) :=
  words.read text

theorem decode_eq_decodeFrom (text : String) : decode text = decodeFrom text 0 1 0 text.toList :=
  rfl

theorem decodeFrom_nil (text : String) (word weight : Int64) (digits : Nat) :
    decodeFrom text word weight digits [] =
      if digits = 0 then .ok [] else .error (.truncated text) :=
  rfl

theorem decodeFrom_cons (text : String) (word weight : Int64) (digits : Nat) (c : Char)
    (cs : List Char) :
    decodeFrom text word weight digits (c :: cs) =
      match Digit.ofChar? c with
      | none => .error (.invalidOctet (leadOctet c))
      | some d =>
        if digits = maxDigits then .error (.tooLong text)
        else
          let word := word + Int64.ofNat d.payload * weight
          if d.continues then decodeFrom text word (weight * 32) (digits + 1) cs
          else
            match decodeFrom text 0 1 0 cs with
            | .ok values => .ok (ofWord word :: values)
            | .error e => .error e := by
  rw [decodeFrom, ReadArithmetic.readFrom]
  rcases Digit.ofChar? c with - | d
  · rfl
  dsimp only
  split
  next => rfl
  next =>
    show (if d.continues then _ else words.readFrom text 0 1 0 cs >>= _) = _
    split
    next => rfl
    next =>
      rw [decodeFrom]
      cases words.readFrom text 0 1 0 cs <;> rfl

/-! ### Writing -/

/-- The digits of a word, least significant first. -/
def digitsOf (n : Nat) : List Digit :=
  let bits : Fin 32 := Fin.ofNat 32 n
  if n < 32 then [Digit.ofPayload bits false]
  else Digit.ofPayload bits true :: digitsOf (n / 32)
termination_by n
decreasing_by omega

/-- The word that is written for a number: its magnitude doubled within 64 bits, with the sign as
the lowest bit. -/
def toWord (value : Int64) : UInt64 :=
  if value < 0 then UInt64.ofNat (2 * value.toInt.natAbs + 1)
  else UInt64.ofNat (2 * value.toInt.natAbs)

/-- The characters of a word. -/
def encodeWord (n : Nat) : List Char :=
  (digitsOf n).map Digit.toChar

/-- The characters of one quantity. -/
def encodeOne (value : Int64) : List Char :=
  encodeWord (toWord value).toNat

/-- The text of a run of quantities. -/
def encode (values : List Int64) : String :=
  String.ofList (values.flatMap encodeOne)

end SourceChain.Vlq
