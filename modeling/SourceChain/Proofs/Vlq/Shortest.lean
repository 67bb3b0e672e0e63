import SourceChain.Proofs.Vlq.RoundTrip

/-!
# Quantities in shortest form

Reading takes more spellings of a value than writing gives: a number may have digits of zero on top,
and zero may have a sign. `IsShortest` leaves these out, and then a number is the one that is
written for its value (`encodeOne_valueOf`). So a text of shortest numbers is written again as it
was (`flatMap_encodeOne_of_decode`), and what is written is in shortest form
(`isShortest_numberOf`).

A run of digits is cut into numbers by `numbersOf`, which any run allows, even one that ends inside
a number. The runs that are read are those whose numbers are complete and have at most twelve
digits; `completes_of_decodeFrom` says so from the middle of a number on, which is where the
induction needs it.
-/

namespace SourceChain.Vlq

/-! ### Numbers of a run -/

/-- The numbers of a run of digits: it is cut behind each digit that no other follows. -/
def numbersOf : List Digit → List (List Digit)
  | [] => []
  | d :: ds =>
    if d.continues then
      match numbersOf ds with
      | [] => [[d]]
      | n :: ns => (d :: n) :: ns
    else [d] :: numbersOf ds

/-- The numbers of a text. Characters that are no digits are passed over. -/
def numbersIn (cs : List Char) : List (List Digit) :=
  numbersOf (cs.filterMap Digit.ofChar?)

/-- The value that a number stands for. -/
def valueOf (ds : List Digit) : Int64 :=
  ofWord (Int64.ofNat (wordOf ds))

/-- Whether a number is spelled as shortly as it can be: a top digit of zero stands alone, and zero
has no sign. -/
def IsShortest (ds : List Digit) : Prop :=
  (1 < ds.length → ∀ d ∈ ds.getLast?, d.payload ≠ 0) ∧ wordOf ds ≠ 1

instance (ds : List Digit) : Decidable (IsShortest ds) :=
  inferInstanceAs (Decidable (_ ∧ _))

theorem numbersOf_append {n : List Digit} (h : IsNumber n) (ds : List Digit) :
    numbersOf (n ++ ds) = n :: numbersOf ds := by
  induction n with
  | nil => exact h.elim
  | cons d n ih =>
    rcases n with - | ⟨e, n⟩
    · rw [IsNumber] at h
      rw [List.cons_append, List.nil_append, numbersOf, h, if_neg Bool.false_ne_true]
    · rw [List.cons_append, numbersOf, if_pos h.1, ih h.2]

/-- Numbers one after another are cut apart again. -/
theorem numbersOf_flatten {numbers : List (List Digit)} (h : ∀ n ∈ numbers, IsNumber n) :
    numbersOf numbers.flatten = numbers := by
  induction numbers with
  | nil => rfl
  | cons n numbers ih =>
    rw [List.flatten_cons, numbersOf_append (h n List.mem_cons_self),
      ih fun m hm ↦ h m (List.mem_cons_of_mem n hm)]

theorem flatten_numbersOf (ds : List Digit) : (numbersOf ds).flatten = ds := by
  induction ds with
  | nil => rfl
  | cons d ds ih =>
    rw [numbersOf]
    split
    next =>
      conv_rhs => rw [← ih]
      rcases numbersOf ds with - | ⟨n, ns⟩ <;> rfl
    next => rw [List.flatten_cons, ih, List.singleton_append]

theorem filterMap_ofChar?_map_toChar (ds : List Digit) :
    (ds.map Digit.toChar).filterMap Digit.ofChar? = ds := by
  rw [List.filterMap_map]
  refine (List.filterMap_congr fun d _ ↦ ?_).trans List.filterMap_some
  exact Digit.ofChar?_toChar d

theorem IsNumber.cons {d : Digit} {n : List Digit} (h : IsNumber n) (hd : d.continues = true) :
    IsNumber (d :: n) := by
  cases n with
  | nil => exact h.elim
  | cons e n => exact ⟨hd, h⟩

/-! ### Numbers that are read -/

/-- What reading says about the numbers ahead, in the middle of a number that has `digits` digits so
far, which add up to `word`: the first of them completes that number, and those after it are
complete themselves. -/
def Completes (word digits : Nat) (values : List Int64) : List (List Digit) → Prop
  | [] => digits = 0 ∧ values = []
  | n :: ns => IsNumber n ∧ digits + n.length ≤ maxDigits ∧
      (∀ m ∈ ns, IsNumber m ∧ m.length ≤ maxDigits) ∧
      values = ofWord (Int64.ofNat (word + 32 ^ digits * wordOf n)) :: ns.map valueOf

/-- At the start of a number, all numbers ahead are complete. -/
theorem Completes.of_start {values : List Int64} {numbers : List (List Digit)}
    (h : Completes 0 0 values numbers) :
    (∀ n ∈ numbers, IsNumber n ∧ n.length ≤ maxDigits) ∧ values = numbers.map valueOf := by
  rcases numbers with - | ⟨n, ns⟩
  · exact ⟨by simp, h.2⟩
  · obtain ⟨hn, hlength, hns, hvalues⟩ := h
    rw [Nat.zero_add] at hlength
    rw [Nat.zero_add, Nat.pow_zero, Nat.one_mul] at hvalues
    refine ⟨?_, hvalues⟩
    rintro m (_ | ⟨_, hm⟩)
    · exact ⟨hn, hlength⟩
    · exact hns m hm

/-- Text that is read from the middle of a number on consists of digits that complete the number. -/
theorem completes_of_decodeFrom {text : String} {word digits : Nat} {cs : List Char}
    {values : List Int64} (hdigits : digits ≤ maxDigits)
    (h : decodeFrom text (Int64.ofNat word) (Int64.ofNat (32 ^ digits)) digits cs = .ok values) :
    ∃ ds : List Digit, cs = ds.map Digit.toChar ∧ Completes word digits values (numbersOf ds) := by
  induction cs generalizing word digits values with
  | nil =>
    rw [decodeFrom_nil] at h
    split at h
    next hzero => exact ⟨[], rfl, hzero, (Except.ok.inj h).symm⟩
    next => cases h
  | cons c cs ih =>
    rw [decodeFrom_cons] at h
    split at h
    next => cases h
    next d hd =>
      obtain rfl := Digit.ofChar?_eq_some_iff.1 hd
      split at h
      next => cases h
      next hroom =>
        have hword : Int64.ofNat word + Int64.ofNat d.payload * Int64.ofNat (32 ^ digits) =
            Int64.ofNat (word + 32 ^ digits * d.payload) := by
          rw [Int64.ofNat_add, Int64.ofNat_mul, Int64.mul_comm]
        simp only [hword, ofNat_pow_succ] at h
        split at h
        next hcontinues =>
          -- the digits ahead belong to the number that is being read
          obtain ⟨ds, rfl, hds⟩ := ih (by omega) h
          refine ⟨d :: ds, rfl, ?_⟩
          rw [numbersOf, if_pos hcontinues]
          rcases hnumbers : numbersOf ds with - | ⟨n, ns⟩
          · rw [hnumbers] at hds
            exact absurd hds.1 (Nat.succ_ne_zero _)
          · rw [hnumbers] at hds
            obtain ⟨hn, hlength, hns, rfl⟩ := hds
            have hsum : word + 32 ^ digits * d.payload + 32 ^ (digits + 1) * wordOf n =
                word + 32 ^ digits * wordOf (d :: n) := by
              rw [wordOf]
              ring
            refine ⟨hn.cons hcontinues, ?_, hns, by rw [hsum]⟩
            rw [List.length_cons]
            omega
        next hcontinues =>
          -- the number is complete, and reading starts anew
          split at h
          next rest hrest =>
            obtain rfl := Except.ok.inj h
            have hstart : decodeFrom text (Int64.ofNat 0) (Int64.ofNat (32 ^ 0)) 0 cs = .ok rest :=
              hrest
            obtain ⟨ds, rfl, hds⟩ := ih (Nat.zero_le _) hstart
            obtain ⟨hnumbers, rfl⟩ := hds.of_start
            refine ⟨d :: ds, rfl, ?_⟩
            rw [numbersOf, if_neg hcontinues]
            refine ⟨Bool.eq_false_iff.2 hcontinues, ?_, hnumbers, rfl⟩
            rw [List.length_singleton]
            omega
          next => cases h

/-- A text that is read consists of complete numbers of at most twelve digits, and its quantities
are what they stand for. -/
theorem numbersIn_of_decode {text : String} {values : List Int64} (h : decode text = .ok values) :
    (∀ n ∈ numbersIn text.toList, IsNumber n ∧ n.length ≤ maxDigits) ∧
      values = (numbersIn text.toList).map valueOf ∧
      text.toList = (numbersIn text.toList).flatten.map Digit.toChar := by
  have hstart : decodeFrom text (Int64.ofNat 0) (Int64.ofNat (32 ^ 0)) 0 text.toList =
      .ok values := h
  obtain ⟨ds, hds, hcompletes⟩ := completes_of_decodeFrom (Nat.zero_le _) hstart
  obtain ⟨hnumbers, hvalues⟩ := hcompletes.of_start
  rw [numbersIn, hds, filterMap_ofChar?_map_toChar]
  exact ⟨hnumbers, hvalues, by rw [flatten_numbersOf]⟩

/-! ### Numbers that are written -/

/-- A digit consists of its five bits and its mark. -/
theorem ofPayload_payload (d : Digit) :
    Digit.ofPayload (Fin.ofNat 32 d.payload) d.continues = d := by
  decide +revert

/-- A number with a top digit other than zero stands for a word other than zero. -/
theorem wordOf_pos {ds : List Digit} (hne : ds ≠ []) (h : ∀ d ∈ ds.getLast?, d.payload ≠ 0) :
    0 < wordOf ds := by
  induction ds with
  | nil => exact absurd rfl hne
  | cons d ds ih =>
    rw [wordOf]
    rcases ds with - | ⟨e, ds⟩
    · exact Nat.add_pos_left (Nat.pos_of_ne_zero (h d rfl)) _
    · have htail := ih (List.cons_ne_nil e ds) fun x hx ↦ h x (by rwa [List.getLast?_cons_cons])
      omega

/-- A number without a digit of zero on top has the digits that are written for its word. -/
theorem digitsOf_wordOf {ds : List Digit} (hds : IsNumber ds)
    (h : 1 < ds.length → ∀ d ∈ ds.getLast?, d.payload ≠ 0) : digitsOf (wordOf ds) = ds := by
  induction ds with
  | nil => exact hds.elim
  | cons d ds ih =>
    have hpayload : d.payload < 32 := Nat.mod_lt _ (by decide)
    have hdigit := ofPayload_payload d
    rw [digitsOf, wordOf]
    rcases ds with - | ⟨e, ds⟩
    · rw [IsNumber] at hds
      rw [hds] at hdigit
      rw [wordOf, Nat.mul_zero, Nat.add_zero, if_pos hpayload, hdigit]
    · obtain ⟨hcontinues, hrest⟩ := hds
      have htop : ∀ x ∈ (e :: ds).getLast?, x.payload ≠ 0 := by
        intro x hx
        refine h ?_ x (by rwa [List.getLast?_cons_cons])
        rw [List.length_cons, List.length_cons]
        omega
      have hpos := wordOf_pos (List.cons_ne_nil e ds) htop
      have hdiv : (d.payload + 32 * wordOf (e :: ds)) / 32 = wordOf (e :: ds) := by omega
      have hbits : Fin.ofNat 32 (d.payload + 32 * wordOf (e :: ds)) = Fin.ofNat 32 d.payload :=
        Fin.ext (Nat.add_mul_mod_self_left _ _ _)
      rw [hcontinues] at hdigit
      rw [if_neg (by omega), hdiv, hbits, hdigit, ih hrest fun _ ↦ htop]

theorem wordOf_lt (ds : List Digit) : wordOf ds < 32 ^ ds.length := by
  induction ds with
  | nil => exact Nat.one_pos
  | cons d ds ih =>
    have hpayload : d.payload < 32 := Nat.mod_lt _ (by decide)
    rw [wordOf, List.length_cons, Nat.pow_succ]
    omega

/-- Twelve digits hold a word of sixty bits. -/
theorem wordOf_lt_of_length_le {ds : List Digit} (h : ds.length ≤ maxDigits) :
    wordOf ds < 2 ^ 60 := by
  calc wordOf ds < 32 ^ ds.length := wordOf_lt ds
    _ ≤ 32 ^ 12 := Nat.pow_le_pow_right (by decide) h
    _ = 2 ^ 60 := by norm_num

/-- A word of sixty bits stands for a value of the size of its half. -/
theorem natAbs_toInt_ofWord {n : Nat} (h : n < 2 ^ 60) :
    (ofWord (Int64.ofNat n)).toInt.natAbs = n / 2 := by
  obtain ⟨k, rfl | rfl⟩ : ∃ k, n = 2 * k ∨ n = 2 * k + 1 := ⟨n / 2, by omega⟩
  · rw [ofWord_even (by omega), Int64.toInt_ofNat_of_lt (by omega), Int.natAbs_natCast]
    omega
  · rw [ofWord_odd (by omega), Int64.toInt_neg_ofNat_of_le (by omega), Int.natAbs_neg,
      Int.natAbs_natCast]
    omega

/-- Quantities that are read have words that twelve digits hold. -/
theorem fits_of_decode {text : String} {values : List Int64} (h : decode text = .ok values) :
    ∀ value ∈ values, Fits value := by
  obtain ⟨hnumbers, rfl, -⟩ := numbersIn_of_decode h
  intro value hvalue
  obtain ⟨n, hn, rfl⟩ := List.mem_map.1 hvalue
  have hlt := wordOf_lt_of_length_le (hnumbers n hn).2
  rw [Fits, valueOf, natAbs_toInt_ofWord hlt]
  omega

/-- The word of the value of a word is the word itself, unless it is that of zero with a sign. -/
theorem toNat_toWord_ofWord {n : Nat} (hlt : n < 2 ^ 60) (hne : n ≠ 1) :
    (toWord (ofWord (Int64.ofNat n))).toNat = n := by
  obtain ⟨k, rfl | rfl⟩ : ∃ k, n = 2 * k ∨ n = 2 * k + 1 := ⟨n / 2, by omega⟩
  · have hvalue : (Int64.ofNat k).toInt = k := Int64.toInt_ofNat_of_lt (by omega)
    have hsign : ¬ Int64.ofNat k < 0 := by
      rw [Int64.lt_iff_toInt_lt, hvalue]
      exact Int.not_lt.2 (Int.natCast_nonneg k)
    rw [ofWord_even (by omega), toNat_toWord (by omega), hvalue, if_neg hsign, Int.natAbs_natCast,
      Nat.add_zero]
  · have hvalue : (-Int64.ofNat k).toInt = -k := Int64.toInt_neg_ofNat_of_le (by omega)
    have hsign : -Int64.ofNat k < 0 := by
      rw [Int64.lt_iff_toInt_lt, hvalue]
      show -(k : Int) < 0
      omega
    rw [ofWord_odd (by omega), toNat_toWord (by omega), hvalue, if_pos hsign, Int.natAbs_neg,
      Int.natAbs_natCast]

/-- A number in shortest form is the one that is written for its value. -/
theorem encodeOne_valueOf {ds : List Digit} (hds : IsNumber ds) (hlength : ds.length ≤ maxDigits)
    (h : IsShortest ds) : encodeOne (valueOf ds) = ds.map Digit.toChar := by
  rw [encodeOne, valueOf, toNat_toWord_ofWord (wordOf_lt_of_length_le hlength) h.2,
    encodeWord, digitsOf_wordOf hds h.1]

/-- A text of numbers in shortest form is written again for its quantities. -/
theorem flatMap_encodeOne_of_decode {text : String} {values : List Int64}
    (h : decode text = .ok values) (hshortest : ∀ n ∈ numbersIn text.toList, IsShortest n) :
    values.flatMap encodeOne = text.toList := by
  obtain ⟨hnumbers, rfl, htext⟩ := numbersIn_of_decode h
  have hencode : ∀ n ∈ numbersIn text.toList, encodeOne (valueOf n) = n.map Digit.toChar :=
    fun n hn ↦ encodeOne_valueOf (hnumbers n hn).1 (hnumbers n hn).2 (hshortest n hn)
  rw [List.flatMap_map, List.flatMap_congr hencode]
  conv_rhs => rw [htext]
  rw [List.map_flatten, List.flatMap_def]

/-! ### What is written is in shortest form -/

theorem payload_getLast?_digitsOf {n : Nat} (hpos : 0 < n) :
    ∀ d ∈ (digitsOf n).getLast?, d.payload ≠ 0 := by
  fun_induction digitsOf n with
  | case1 n bits h =>
    rintro d hd
    obtain rfl : Digit.ofPayload bits false = d := Option.some.inj hd
    rw [Digit.payload_ofPayload]
    show n % 32 ≠ 0
    omega
  | case2 n bits h ih =>
    obtain ⟨e, ds, hds⟩ := List.exists_cons_of_ne_nil (digitsOf_ne_nil (n / 32))
    rw [hds, List.getLast?_cons_cons, ← hds]
    exact ih (by omega)

/-- The digits that are written for a word are in shortest form, unless it is that of zero with a
sign. -/
theorem isShortest_digitsOf {n : Nat} (hne : n ≠ 1) : IsShortest (digitsOf n) := by
  refine ⟨fun hlength ↦ ?_, by rwa [wordOf_digitsOf]⟩
  refine payload_getLast?_digitsOf (Nat.pos_of_ne_zero ?_)
  rintro rfl
  rw [digitsOf] at hlength
  exact absurd hlength (by decide)

/-- The number that is written for a value. -/
def numberOf (value : Int64) : List Digit :=
  digitsOf (toWord value).toNat

theorem isShortest_numberOf {value : Int64} (h : Fits value) : IsShortest (numberOf value) := by
  have hbound : value.toInt.natAbs < 2 ^ 59 := h
  refine isShortest_digitsOf ?_
  rw [toNat_toWord (by omega)]
  split
  next hneg =>
    -- a value with a sign is not zero
    have hlt : value.toInt < 0 := Int64.lt_iff_toInt_lt.1 hneg
    omega
  next => omega

theorem valueOf_numberOf {value : Int64} (h : Fits value) : valueOf (numberOf value) = value := by
  have hbound : value.toInt.natAbs < 2 ^ 59 := h
  rw [valueOf, numberOf, wordOf_digitsOf, ofWord_toWord (by omega)]

/-- Written quantities are the numbers that are written for them, one after another. -/
theorem flatMap_encodeOne_eq (values : List Int64) :
    values.flatMap encodeOne = (values.map numberOf).flatten.map Digit.toChar := by
  rw [List.map_flatten, List.map_map, List.flatMap_def]
  rfl

theorem numbersIn_flatMap_encodeOne (values : List Int64) :
    numbersIn (values.flatMap encodeOne) = values.map numberOf := by
  have hnumbers : ∀ n ∈ values.map numberOf, IsNumber n := by
    intro n hn
    obtain ⟨value, -, rfl⟩ := List.mem_map.1 hn
    exact isNumber_digitsOf _
  rw [numbersIn, flatMap_encodeOne_eq, filterMap_ofChar?_map_toChar, numbersOf_flatten hnumbers]

end SourceChain.Vlq
