import Mathlib.Data.List.Basic
import Mathlib.Tactic.Ring
import SourceChain.Vlq

/-!
# Quantities read back as they were written

A number is a run of digits of which each but the last says that another follows (`IsNumber`), and
it stands for the word that its digits add up to (`wordOf`). Writing gives the run of a word back,
and reading such a run gives the word, whatever stands behind it.

Reading admits twelve digits, which hold a word below `2 ^ 60`; so a value reads back if its
magnitude is below `2 ^ 59` (`Fits`). Reading adds and multiplies in 64-bit words, and since
`Int64.ofNat` respects both, nothing has to be said about their range until the sign is taken off.
-/

namespace SourceChain.Vlq

namespace Digit

/-- The characters of digits divide nothing in a mappings text. -/
theorem toChar_ne_comma (d : Digit) : d.toChar ≠ ',' := by
  decide +revert

theorem toChar_ne_semicolon (d : Digit) : d.toChar ≠ ';' := by
  decide +revert

end Digit

/-! ### Runs of digits -/

/-- Whether each digit but the last says that another follows. -/
def IsNumber : List Digit → Prop
  | [] => False
  | [d] => d.continues = false
  | d :: e :: ds => d.continues = true ∧ IsNumber (e :: ds)

/-- The word that digits add up to, least significant first. -/
def wordOf : List Digit → Nat
  | [] => 0
  | d :: ds => d.payload + 32 * wordOf ds

theorem digitsOf_ne_nil (n : Nat) : digitsOf n ≠ [] := by
  rw [digitsOf]
  split <;> exact List.cons_ne_nil _ _

theorem isNumber_digitsOf (n : Nat) : IsNumber (digitsOf n) := by
  fun_induction digitsOf n with
  | case1 n bits h => exact Digit.continues_ofPayload _ _
  | case2 n bits h ih =>
    obtain ⟨e, ds, hds⟩ := List.exists_cons_of_ne_nil (digitsOf_ne_nil (n / 32))
    rw [hds] at ih ⊢
    exact ⟨Digit.continues_ofPayload _ _, ih⟩

theorem wordOf_digitsOf (n : Nat) : wordOf (digitsOf n) = n := by
  fun_induction digitsOf n with
  | case1 n bits h =>
    rw [wordOf, Digit.payload_ofPayload, wordOf]
    exact Nat.mod_eq_of_lt h
  | case2 n bits h ih =>
    rw [wordOf, Digit.payload_ofPayload, ih]
    exact Nat.mod_add_div n 32

/-- A word below a power of the base has no more digits than the exponent says. -/
theorem length_digitsOf_le {n k : Nat} (h : n < 32 ^ (k + 1)) : (digitsOf n).length ≤ k + 1 := by
  induction k generalizing n with
  | zero =>
    rw [digitsOf]
    simp [show n < 32 from h]
  | succ k ih =>
    rw [digitsOf]
    split
    · simp
    · have hdiv : n / 32 < 32 ^ (k + 1) := by
        rw [Nat.div_lt_iff_lt_mul (by decide)]
        exact h
      exact Nat.succ_le_succ (ih hdiv)

/-- The place of one more digit is the weight times the base. -/
theorem ofNat_pow_succ (digits : Nat) :
    Int64.ofNat (32 ^ digits) * 32 = Int64.ofNat (32 ^ (digits + 1)) := by
  rw [Nat.pow_succ, Int64.ofNat_mul]
  rfl

/-- Reading the rest of a number completes its word, and goes on with what stands behind it. -/
theorem decodeFrom_number (text : String) {ds : List Digit} (hds : IsNumber ds) (word : Nat)
    {digits : Nat} (hdigits : digits + ds.length ≤ maxDigits) (cs : List Char) :
    decodeFrom text (Int64.ofNat word) (Int64.ofNat (32 ^ digits)) digits
        (ds.map Digit.toChar ++ cs) =
      (decodeFrom text 0 1 0 cs).map
        (ofWord (Int64.ofNat (word + 32 ^ digits * wordOf ds)) :: ·) := by
  induction ds generalizing word digits with
  | nil => exact hds.elim
  | cons d ds ih =>
    have hroom : digits ≠ maxDigits := by
      rw [List.length_cons] at hdigits
      omega
    -- the sum may wrap here, but it wraps on both sides
    have hword : Int64.ofNat word + Int64.ofNat d.payload * Int64.ofNat (32 ^ digits) =
        Int64.ofNat (word + 32 ^ digits * d.payload) := by
      rw [Int64.ofNat_add, Int64.ofNat_mul, Int64.mul_comm]
    rw [List.map_cons, List.cons_append, decodeFrom_cons, Digit.ofChar?_toChar]
    simp only [hroom, if_false, hword]
    cases ds with
    | nil =>
      rw [IsNumber] at hds
      simp only [hds, Bool.false_eq_true, if_false, List.map_nil, List.nil_append, wordOf,
        Nat.mul_zero, Nat.add_zero]
      cases decodeFrom text 0 1 0 cs <;> rfl
    | cons e es =>
      obtain ⟨hcontinues, hrest⟩ := hds
      have hsum : word + 32 ^ digits * d.payload + 32 ^ (digits + 1) * wordOf (e :: es) =
          word + 32 ^ digits * wordOf (d :: e :: es) := by
        show _ = word + 32 ^ digits * (d.payload + 32 * wordOf (e :: es))
        ring
      have hrest_digits : digits + 1 + (e :: es).length ≤ maxDigits := by
        rw [List.length_cons] at hdigits
        omega
      rw [if_pos hcontinues, ofNat_pow_succ, ih hrest _ hrest_digits, hsum]

/-! ### Signs -/

/-- A value whose word twelve digits hold. -/
def Fits (value : Int64) : Prop :=
  value.toInt.natAbs < 2 ^ 59

/-- The word of a value keeps its magnitude, if doubling loses no bit. -/
theorem toNat_toWord {value : Int64} (h : value.toInt.natAbs < 2 ^ 63) :
    (toWord value).toNat = 2 * value.toInt.natAbs + if value < 0 then 1 else 0 := by
  have hlt : 2 * value.toInt.natAbs + 1 < UInt64.size := by
    rw [UInt64.size]
    omega
  rw [toWord]
  split
  next => exact UInt64.toNat_ofNat_of_lt' hlt
  next => exact UInt64.toNat_ofNat_of_lt' (Nat.lt_of_succ_lt hlt)

/-- Twelve digits are enough for a value that fits. -/
theorem length_digitsOf_toWord_le {value : Int64} (h : Fits value) :
    (digitsOf (toWord value).toNat).length ≤ maxDigits := by
  have hbound : value.toInt.natAbs < 2 ^ 59 := h
  have hword : (toWord value).toNat < 32 ^ (11 + 1) := by
    rw [toNat_toWord (by omega)]
    split <;> omega
  exact length_digitsOf_le hword

theorem ofWord_even {n : Nat} (h : n < 2 ^ 62) : ofWord (Int64.ofNat (2 * n)) = Int64.ofNat n := by
  have hmod : Int64.ofNat (2 * n) % 2 = 0 := by
    show Int64.ofNat (2 * n) % Int64.ofNat 2 = Int64.ofNat 0
    rw [← Int64.ofNat_mod (by omega) (by decide), Nat.mul_mod_right]
  have hdiv : Int64.ofNat (2 * n) / 2 = Int64.ofNat n := by
    show Int64.ofNat (2 * n) / Int64.ofNat 2 = Int64.ofNat n
    rw [← Int64.ofNat_div (by omega) (by decide), Nat.mul_div_cancel_left n (by decide)]
  rw [ofWord, if_pos hmod, hdiv]

theorem ofWord_odd {n : Nat} (h : n < 2 ^ 62) :
    ofWord (Int64.ofNat (2 * n + 1)) = -Int64.ofNat n := by
  have hmod : ¬ Int64.ofNat (2 * n + 1) % 2 = 0 := by
    show ¬ Int64.ofNat (2 * n + 1) % Int64.ofNat 2 = Int64.ofNat 0
    rw [← Int64.ofNat_mod (by omega) (by decide), show (2 * n + 1) % 2 = 1 by omega]
    decide
  have hdiv : Int64.ofNat (2 * n + 1) / 2 = Int64.ofNat n := by
    show Int64.ofNat (2 * n + 1) / Int64.ofNat 2 = Int64.ofNat n
    rw [← Int64.ofNat_div (by omega) (by decide), show (2 * n + 1) / 2 = n by omega]
  rw [ofWord, if_neg hmod, hdiv]

/-- The word of a value stands for the value. -/
theorem ofWord_toWord {value : Int64} (h : value.toInt.natAbs < 2 ^ 62) :
    ofWord (Int64.ofNat (toWord value).toNat) = value := by
  rw [toNat_toWord (Nat.lt_trans h (by decide))]
  split
  next hneg =>
    rw [ofWord_odd h, ← Int64.toInt_inj, Int64.toInt_neg_ofNat_of_le (by omega)]
    have hlt : value.toInt < 0 := Int64.lt_iff_toInt_lt.1 hneg
    omega
  next hneg =>
    rw [Nat.add_zero, ofWord_even h, ← Int64.toInt_inj, Int64.toInt_ofNat_of_lt (by omega)]
    have hle : ¬ value.toInt < 0 := fun hlt ↦ hneg (Int64.lt_iff_toInt_lt.2 hlt)
    omega

/-! ### Runs of quantities -/

theorem encodeOne_ne_nil (value : Int64) : encodeOne value ≠ [] := by
  rw [encodeOne, encodeWord, ne_eq, List.map_eq_nil_iff]
  exact digitsOf_ne_nil _

/-- Written quantities consist of digits. -/
theorem exists_digit_of_mem_encodeOne {value : Int64} {c : Char} (h : c ∈ encodeOne value) :
    ∃ d : Digit, d.toChar = c := by
  obtain ⟨d, -, hd⟩ := List.mem_map.1 h
  exact ⟨d, hd⟩

/-- Reading a written quantity gives it back, whatever stands behind it. -/
theorem decodeFrom_encodeOne_append {text : String} {value : Int64} (h : Fits value)
    (cs : List Char) :
    decodeFrom text 0 1 0 (encodeOne value ++ cs) =
      (decodeFrom text 0 1 0 cs).map (value :: ·) := by
  have hmagnitude : value.toInt.natAbs < 2 ^ 62 := Nat.lt_trans h (by decide)
  have hlength : 0 + (digitsOf (toWord value).toNat).length ≤ maxDigits :=
    (Nat.zero_add _).symm ▸ length_digitsOf_toWord_le h
  have hnumber := decodeFrom_number text (isNumber_digitsOf (toWord value).toNat) 0 hlength cs
  rw [Nat.pow_zero, Nat.one_mul, Nat.zero_add, wordOf_digitsOf, ofWord_toWord hmagnitude] at hnumber
  exact hnumber

/-- Reading written quantities gives them back. -/
theorem decode_flatMap_encodeOne {values : List Int64} (h : ∀ value ∈ values, Fits value) :
    decode (String.ofList (values.flatMap encodeOne)) = .ok values := by
  rw [decode_eq_decodeFrom, String.toList_ofList]
  generalize String.ofList (values.flatMap encodeOne) = text
  induction values with
  | nil => rfl
  | cons value values ih =>
    rw [List.flatMap_cons, decodeFrom_encodeOne_append (h value List.mem_cons_self),
      ih fun v hv ↦ h v (List.mem_cons_of_mem _ hv)]
    rfl

end SourceChain.Vlq
