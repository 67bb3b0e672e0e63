import SourceChain.Proofs.Vlq.Grammar

/-!
# Writing and reading quantities over all 64-bit values

Reading undoes writing exactly on values whose word twelve digits hold. The other values are of two
kinds. All but the least keep their magnitude when it is doubled; they are written with at least
thirteen digits, and a text with such a number is refused whatever stands around it
(`decode_encode_of_long`). The least value loses its magnitude to the doubling, and only the sign is
left: it is written as zero with a sign, and read as zero.

The other way round, a text is written again as it was exactly if its numbers are in shortest form.
The values are kept in every case, since whatever is read is small enough to be read once more.
-/

namespace SourceChain.Vlq

open Json (octetsOf octetsOf_ofList)

/-! ### Digits of a value -/

section Value

variable {value : Int64}

/-- Every value but the least has a magnitude of 63 bits. -/
theorem natAbs_toInt_lt (h : value ≠ Int64.minValue) : value.toInt.natAbs < 2 ^ 63 := by
  have hlow := Int64.le_toInt value
  have hhigh := Int64.toInt_lt value
  have hne : value.toInt ≠ -2 ^ 63 := fun hmin ↦ h (Int64.toInt_inj.1 hmin)
  omega

/-- A word of more than sixty bits takes more than twelve digits. -/
theorem lt_length_numberOf (h : ¬ Fits value) (hmin : value ≠ Int64.minValue) :
    maxDigits < (numberOf value).length := by
  have hbound : 2 ^ 59 ≤ value.toInt.natAbs := Nat.not_lt.1 h
  have hword : 32 ^ maxDigits ≤ (toWord value).toNat := by
    rw [toNat_toWord (natAbs_toInt_lt hmin), maxDigits]
    omega
  have hdigits := wordOf_lt (numberOf value)
  rw [numberOf, wordOf_digitsOf] at hdigits
  exact (Nat.pow_lt_pow_iff_right (by decide)).1 (Nat.lt_of_le_of_lt hword hdigits)

end Value

/-- Doubling the magnitude of the least value leaves nothing but its sign. -/
theorem numberOf_minValue : numberOf Int64.minValue = [1] := by
  rw [numberOf, show (toWord Int64.minValue).toNat = 1 by decide, digitsOf]
  rfl

theorem encodeOne_minValue : encodeOne Int64.minValue = ['B'] := by
  show (numberOf Int64.minValue).map Digit.toChar = ['B']
  rw [numberOf_minValue]
  rfl

theorem encode_append (before after : List Int64) :
    encode (before ++ after) = encode before ++ encode after := by
  rw [encode, List.flatMap_append, String.ofList_append]
  rfl

/-! ### Reading what was written -/

theorem octetsOf_encode (values : List Int64) :
    octetsOf (encode values) = (values.map numberOf).flatten.map Digit.octet := by
  rw [encode, octetsOf_ofList, flatMap_encodeOne_eq, octetsOfChars_map_toChar]

theorem forall_mem_map_numberOf {values : List Int64}
    (h : ∀ value ∈ values, (numberOf value).length ≤ maxDigits) :
    ∀ n ∈ values.map numberOf, IsNumber n ∧ n.length ≤ 12 := by
  intro n hn
  obtain ⟨value, hvalue, rfl⟩ := List.mem_map.1 hn
  exact ⟨isNumber_digitsOf _, h value hvalue⟩

/-- Values that are written with twelve digits at most are read as what their digits stand for. -/
theorem decode_encode_of_short {values : List Int64}
    (h : ∀ value ∈ values, (numberOf value).length ≤ maxDigits) :
    decode (encode values) = .ok (values.map fun value ↦ valueOf (numberOf value)) := by
  have hscanned : Scanned (octetsOf (encode values)) (values.map numberOf) [] :=
    ⟨by rw [octetsOf_encode, List.append_nil], forall_mem_map_numberOf h, by simp, by simp⟩
  rw [decode_of_scanned hscanned, if_pos rfl, List.map_map]
  rfl

theorem continues_of_mem_take {ds : List Digit} (hds : IsNumber ds) {count : Nat}
    (hcount : count < ds.length) : ∀ d ∈ ds.take count, d.continues = true := by
  induction ds generalizing count with
  | nil => exact hds.elim
  | cons d ds ih =>
    rcases count with - | count
    · simp
    · rw [List.length_cons] at hcount
      rcases ds with - | ⟨e, ds⟩
      · exact absurd hcount (by simp)
      · rw [List.take_succ_cons]
        exact List.forall_mem_cons.2 ⟨hds.1, ih hds.2 (Nat.lt_of_succ_lt_succ hcount)⟩

/-- A value that is written with more than twelve digits makes the text unreadable. -/
theorem decode_encode_of_long {values : List Int64}
    (h : ∃ value ∈ values, maxDigits < (numberOf value).length) :
    decode (encode values) = .error (.tooLong (encode values)) := by
  -- the first such value decides
  have hfound : (values.find? fun value ↦ maxDigits < (numberOf value).length).isSome := by
    simpa using h
  obtain ⟨value, hvalue⟩ := Option.isSome_iff_exists.1 hfound
  obtain ⟨hlong, before, after, rfl, hbefore⟩ := List.find?_eq_some_iff_append.1 hvalue
  have hlong : maxDigits < (numberOf value).length := by simpa using hlong
  have hshort : ∀ v ∈ before, (numberOf v).length ≤ maxDigits := by simpa using hbefore
  have hlength : ((numberOf value).take maxDigits).length = 12 :=
    List.length_take_of_le (Nat.le_of_lt hlong)
  have hscanned : Scanned _ (before.map numberOf) ((numberOf value).take maxDigits) :=
    ⟨rfl, forall_mem_map_numberOf hshort,
      continues_of_mem_take (isNumber_digitsOf _) hlong, Nat.le_of_eq hlength⟩
  obtain ⟨d, rest, hrest⟩ : ∃ d rest, (numberOf value).drop maxDigits = d :: rest :=
    ⟨_, _, List.drop_eq_getElem_cons hlong⟩
  have hnumber : numberOf value = (numberOf value).take maxDigits ++ d :: rest := by
    rw [← hrest, List.take_append_drop]
  have hoctets : octetsOf (encode (before ++ value :: after)) =
      ((before.map numberOf).flatten ++ (numberOf value).take maxDigits).map Digit.octet ++
        d.octet :: (rest ++ (after.map numberOf).flatten).map Digit.octet := by
    rw [octetsOf_encode, List.map_append, List.map_cons, List.flatten_append, List.flatten_cons]
    conv_lhs => rw [hnumber]
    simp only [List.map_append, List.map_cons, List.append_assoc, List.cons_append]
  exact decode_of_thirteenth hoctets hscanned hlength

/-! ### The two directions -/

/-- Reading undoes writing exactly if every value has a magnitude below `2 ^ 59`. A larger value,
unless it is the least of all, makes the written text too long to be read; the least is written as
`B` and read as zero, and spoils no other value. A text that is read is written again exactly if its
numbers are in shortest form, and what is written has the values that were read. -/
theorem decode_encode_inverse :
    (∀ values, decode (encode values) = .ok values ↔
        ∀ value ∈ values, value.toInt.natAbs < 2 ^ 59) ∧
      (∀ values, (∃ value ∈ values, value ≠ Int64.minValue ∧ 2 ^ 59 ≤ value.toInt.natAbs) →
        decode (encode values) = .error (.tooLong (encode values))) ∧
      (∀ values, (∀ value ∈ values, 2 ^ 59 ≤ value.toInt.natAbs → value = Int64.minValue) →
        decode (encode values) =
          .ok (values.map fun value ↦ if value = Int64.minValue then 0 else value)) ∧
      (∀ before after,
        encode (before ++ Int64.minValue :: after) = encode before ++ "B" ++ encode after) ∧
      ∀ text values, decode text = .ok values →
        (encode values = text ↔ ∀ n ∈ numbersIn text.toList, IsShortest n) ∧
          decode (encode values) = .ok values := by
  refine ⟨fun values ↦ ⟨fits_of_decode, decode_flatMap_encodeOne⟩, ?_, ?_, ?_, ?_⟩
  · rintro values ⟨value, hvalue, hmin, hlarge⟩
    exact decode_encode_of_long
      ⟨value, hvalue, lt_length_numberOf (Nat.not_lt.2 hlarge) hmin⟩
  · intro values h
    have hfits : ∀ value ∈ values, value ≠ Int64.minValue → Fits value := by
      intro value hvalue hmin
      exact Nat.not_le.1 fun hlarge ↦ hmin (h value hvalue hlarge)
    rw [decode_encode_of_short]
    · refine congrArg Except.ok (List.map_congr_left fun value hvalue ↦ ?_)
      split
      next hmin =>
        rw [hmin, numberOf_minValue]
        decide
      next hmin => exact valueOf_numberOf (hfits value hvalue hmin)
    · intro value hvalue
      by_cases hmin : value = Int64.minValue
      · rw [hmin, numberOf_minValue]
        decide
      · exact length_digitsOf_toWord_le (hfits value hvalue hmin)
  · intro before after
    have hleast : encode (Int64.minValue :: after) = "B" ++ encode after := by
      rw [encode, List.flatMap_cons, encodeOne_minValue, String.ofList_append]
      rfl
    rw [encode_append, hleast, String.append_assoc]
  · intro text values hread
    refine ⟨⟨?_, fun hshortest ↦ ?_⟩, decode_flatMap_encodeOne (fits_of_decode hread)⟩
    · rintro rfl n hn
      rw [encode, String.toList_ofList, numbersIn_flatMap_encodeOne] at hn
      obtain ⟨value, hvalue, rfl⟩ := List.mem_map.1 hn
      exact isShortest_numberOf (fits_of_decode hread value hvalue)
    · rw [encode, flatMap_encodeOne_of_decode hread hshortest, String.ofList_toList]

/-- The least value among others, a value that is just too large, and a text with a digit of zero on
top of a number. -/
theorem decode_encode_inverse_sample :
    decode (encode [-1, Int64.minValue, 7]) = .ok [-1, 0, 7] ∧
      decode (encode [3, 576460752303423488]) =
        .error (.tooLong (encode [3, 576460752303423488])) ∧
      decode "CgA" = .ok [1, 0] ∧ encode [1, 0] ≠ "CgA" ∧
      decode (encode [1, 0]) = .ok [1, 0] := by
  obtain ⟨-, hlarge, hleast, -, htext⟩ := decode_encode_inverse
  have hread : decode "CgA" = .ok [1, 0] := by cbv
  obtain ⟨hsame, hagain⟩ := htext "CgA" [1, 0] hread
  refine ⟨hleast [-1, Int64.minValue, 7] (by simp),
    hlarge _ ⟨576460752303423488, by decide, by decide, by decide⟩, hread, fun hequal ↦ ?_, hagain⟩
  exact absurd (hsame.1 hequal) (by decide)

end SourceChain.Vlq
