import SourceChain.Proofs.Json.Quoted

/-!
# Numerals read back as they were written

The decimal digits of a number below `2 ^ 64` are read as that number, if nothing stands behind them
that would go on with it (`EndsNumeral`). Digits are written from the last one back and read from
the first one on, so what is said about reading is said with more digits behind.
-/

namespace SourceChain.Json

/-- The octets of the decimal digits of a number. -/
def decimalOctets (n : Nat) : List UInt8 :=
  octetsOfChars (Nat.toDigits 10 n)

theorem octetsOfChars_digitChar {d : Nat} (h : d < 10) :
    octetsOfChars [d.digitChar] = [octet d.digitChar] :=
  octetsOfChars_cons_of_lt (toNat_digitChar_lt (Nat.lt_trans h (by decide))) []

theorem decimalOctets_of_lt {n : Nat} (h : n < 10) : decimalOctets n = [octet n.digitChar] := by
  rw [decimalOctets, Nat.toDigits_of_lt_base h, octetsOfChars_digitChar h]

theorem decimalOctets_of_le {n : Nat} (h : 10 ≤ n) :
    decimalOctets n = decimalOctets (n / 10) ++ [octet (n % 10).digitChar] := by
  rw [decimalOctets, Nat.toDigits_of_base_le (by decide) h, octetsOfChars_append,
    octetsOfChars_digitChar (Nat.mod_lt n (by decide)), decimalOctets]

theorem isDigit_octet_digitChar {d : Nat} (h : d < 10) : isDigit (octet d.digitChar) = true := by
  decide +revert

theorem toNat_octet_digitChar {d : Nat} (h : d < 10) : (octet d.digitChar).toNat - 48 = d := by
  decide +revert

theorem octet_digitChar_ne_zero {d : Nat} (h : d < 10) (hpos : 0 < d) :
    octet d.digitChar ≠ octet '0' := by
  decide +revert

theorem isDigit_of_mem_decimalOctets {n : Nat} : ∀ b ∈ decimalOctets n, isDigit b = true := by
  induction n using Nat.strongRecOn with
  | ind n ih =>
    rcases Nat.lt_or_ge n 10 with hn | hn
    · rw [decimalOctets_of_lt hn]
      simpa using isDigit_octet_digitChar hn
    · rw [decimalOctets_of_le hn]
      intro b hb
      rcases List.mem_append.1 hb with hb | hb
      · exact ih (n / 10) (by omega) b hb
      · rw [List.mem_singleton.1 hb]
        exact isDigit_octet_digitChar (Nat.mod_lt n (by decide))

/-- Only zero starts with a zero. -/
theorem exists_decimalOctets_eq_cons (n : Nat) :
    ∃ b r, decimalOctets n = b :: r ∧ (b = octet '0' → n = 0) := by
  induction n using Nat.strongRecOn with
  | ind n ih =>
    rcases Nat.lt_or_ge n 10 with hn | hn
    · refine ⟨_, _, decimalOctets_of_lt hn, fun hzero ↦ ?_⟩
      exact Nat.eq_zero_of_not_pos fun hpos ↦ octet_digitChar_ne_zero hn hpos hzero
    · obtain ⟨b, r, hr, hb⟩ := ih (n / 10) (by omega)
      refine ⟨b, r ++ [octet (n % 10).digitChar], ?_, fun hzero ↦ ?_⟩
      · rw [decimalOctets_of_le hn, hr, List.cons_append]
      · have hdiv := hb hzero
        omega

/-- The digits of a number are taken in as the number, as far as 64 bits hold it. -/
theorem absorb_decimalOctets {n : Nat} (h : n < UInt64.size) (ds : List UInt8) :
    absorb 0 (decimalOctets n ++ ds) = absorb n ds := by
  have hstep : ∀ {high d : Nat}, d < 10 → 10 * high + d < UInt64.size →
      ∀ ds, absorb high (octet d.digitChar :: ds) = absorb (10 * high + d) ds := by
    intro high d hd hlt ds
    rw [absorb, toNat_octet_digitChar hd]
    exact if_pos hlt
  induction n using Nat.strongRecOn generalizing ds with
  | ind n ih =>
    rcases Nat.lt_or_ge n 10 with hn | hn
    · rw [decimalOctets_of_lt hn]
      simpa using hstep hn (show 10 * 0 + n < UInt64.size by omega) ds
    · have hsum : 10 * (n / 10) + n % 10 = n := Nat.div_add_mod n 10
      rw [decimalOctets_of_le hn, List.append_assoc, ih (n / 10) (by omega) (by omega)]
      have hlast := hstep (Nat.mod_lt n (by decide)) (show 10 * (n / 10) + n % 10 < _ by rwa [hsum])
      rw [hsum] at hlast
      exact hlast ds

/-- Whether a text does not go on with a number that stands before it. -/
def EndsNumeral (s : List UInt8) : Prop :=
  ∀ b ∈ s.head?, isDigit b = false ∧ b ≠ point ∧ b ≠ octet 'e' ∧ b ≠ octet 'E'

variable {rest : List UInt8}

theorem takeDigits_append {ds : List UInt8} (hds : ∀ b ∈ ds, isDigit b = true)
    (hrest : EndsNumeral rest) :
    ∃ h, takeDigits (ds ++ rest) = (ds, ⟨rest, h⟩) := by
  have hnone : rest.takeWhile isDigit = [] ∧ rest.dropWhile isDigit = rest := by
    cases rest with
    | nil => exact ⟨rfl, rfl⟩
    | cons b r =>
      have hb : ¬ isDigit b = true := by simp [(hrest b rfl).1]
      exact ⟨List.takeWhile_cons_of_neg hb, List.dropWhile_cons_of_neg hb⟩
  have hlength : rest.length ≤ (ds ++ rest).length := by simp
  refine ⟨hlength, Prod.ext ?_ (Subtype.ext ?_)⟩
  · show (ds ++ rest).takeWhile isDigit = ds
    rw [List.takeWhile_append_of_pos hds, hnone.1, List.append_nil]
  · show (ds ++ rest).dropWhile isDigit = rest
    rw [List.dropWhile_append_of_pos hds, hnone.2]

/-- A number that nothing goes on with is a plain integer. -/
theorem afterInteger_of_ends {ds : List UInt8} {n : Nat} (hds : absorb 0 ds = (n, 0))
    (hrest : EndsNumeral rest) :
    ∃ h, afterInteger false ds rest = .ok (some n, ⟨rest, h⟩) := by
  refine ⟨Nat.le_refl _, ?_⟩
  rw [afterInteger, hds]
  cases rest with
  | nil => rfl
  | cons b r =>
    obtain ⟨-, hpoint, he, hE⟩ := hrest b rfl
    simp [hpoint, he, hE, plainInteger]

/-- Reading the digits of a number gives it back. -/
theorem numeral_decimalOctets {n : Nat} (h : n < UInt64.size) (hrest : EndsNumeral rest) :
    ∃ h, numeral (decimalOctets n ++ rest) = .ok (some n, ⟨rest, h⟩) := by
  obtain ⟨b, r, hr, hzero⟩ := exists_decimalOctets_eq_cons n
  have hdigits : ∀ d ∈ b :: r, isDigit d = true := hr ▸ isDigit_of_mem_decimalOctets
  have habsorb : absorb 0 (b :: r) = (n, 0) := by
    rw [← hr, ← List.append_nil (decimalOctets n), absorb_decimalOctets h, absorb]
  have hb : isDigit b = true := hdigits b List.mem_cons_self
  have hminus : b ≠ minus := by
    rintro rfl
    exact absurd hb (by decide)
  obtain ⟨hlength, hafter⟩ := afterInteger_of_ends habsorb hrest
  rw [hr, List.cons_append]
  simp only [numeral, if_neg hminus]
  by_cases hfirst : b = octet '0'
  · -- a zero stands alone
    obtain rfl := hzero hfirst
    obtain ⟨rfl, rfl⟩ := List.cons.inj ((decimalOctets_of_lt (by decide)).symm.trans hr)
    have hnext : ¬ (rest.head?.map isDigit).getD false = true := by
      cases rest with
      | nil => exact Bool.false_ne_true
      | cons c cs =>
        have hc := (hrest c rfl).1
        simp [hc]
    refine ⟨Nat.lt_succ_self _, ?_⟩
    simp only [List.nil_append, unsignedNumeral, if_pos hfirst, if_neg hnext, hafter]
  · obtain ⟨htake_length, htake⟩ :=
      takeDigits_append (fun d hd ↦ hdigits d (List.mem_cons_of_mem b hd)) hrest
    refine ⟨Nat.lt_succ_of_le htake_length, ?_⟩
    rw [unsignedNumeral, if_neg hfirst, if_pos hb]
    generalize takeDigits (r ++ rest) = taken at htake ⊢
    subst htake
    simp only [hafter]

end SourceChain.Json
