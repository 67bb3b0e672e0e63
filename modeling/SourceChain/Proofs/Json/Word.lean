import Mathlib.Data.List.Induction
import SourceChain.Proofs.Json.Locality

/-!
# Numbers that are wanted stand there in their digits

A number is read from no other word than its decimal digits (`of_numeral`): no sign, no fraction, no
exponent, no zero in front. Only the digits of a number stand for it then
(`decimalOctets_digitsValue`), and a text that a number is read from holds the number as it is
written (`exists_text_of_octets`).
-/

namespace SourceChain.Json

variable {n : Nat} {ds s rest : List UInt8}

/-! ### Digits -/

theorem toNat_octet_digitChar_eq {k : Nat} (h : k < 10) : (octet k.digitChar).toNat = 48 + k := by
  decide +revert

theorem octet_digitChar_of_isDigit {d : UInt8} (h : isDigit d = true) :
    d.toNat - 48 < 10 ∧ octet (d.toNat - 48).digitChar = d := by
  rw [isDigit, Bool.and_eq_true, decide_eq_true_iff, decide_eq_true_iff, UInt8.le_iff_toNat_le,
    UInt8.le_iff_toNat_le] at h
  have hlow : 48 ≤ d.toNat := h.1
  have hhigh : d.toNat ≤ 57 := h.2
  have hlt : d.toNat - 48 < 10 := by omega
  refine ⟨hlt, UInt8.toNat_inj.1 ?_⟩
  rw [toNat_octet_digitChar_eq hlt]
  omega

/-- Digits without a zero in front are those of the number that they stand for. -/
theorem decimalOctets_digitsValue (hne : ds ≠ []) (hds : ∀ d ∈ ds, isDigit d = true)
    (hzero : ds.head? = some (octet '0') → ds.length = 1) :
    decimalOctets (digitsValue ds) = ds := by
  induction ds using List.reverseRecOn with
  | nil => exact absurd rfl hne
  | append_singleton ds d ih =>
    obtain ⟨hlt, hd⟩ := octet_digitChar_of_isDigit (hds d (List.mem_append_right _ (by simp)))
    have hvalue : digitsValue (ds ++ [d]) = 10 * digitsValue ds + (d.toNat - 48) := by
      rw [digitsValue, List.foldl_append]
      rfl
    rcases ds with - | ⟨b, ds⟩
    · have hsingle : digitsValue ([] ++ [d]) = d.toNat - 48 := by
        rw [hvalue]
        exact Nat.zero_add _
      rw [hsingle, decimalOctets_of_lt hlt, hd, List.nil_append]
    · have hfirst : b ≠ octet '0' := by
        rintro rfl
        simpa using hzero rfl
      have hfront := ih (List.cons_ne_nil _ _) (fun c hc ↦ hds c (List.mem_append_left _ hc))
        fun h ↦ absurd (Option.some.inj h) hfirst
      have hpos : digitsValue (b :: ds) ≠ 0 := by
        intro hvalue
        rw [hvalue, decimalOctets_of_lt (by decide)] at hfront
        exact hfirst (List.cons.inj hfront).1.symm
      rw [hvalue, decimalOctets_of_le (by omega),
        show (10 * digitsValue (b :: ds) + (d.toNat - 48)) / 10 = digitsValue (b :: ds) by omega,
        show (10 * digitsValue (b :: ds) + (d.toNat - 48)) % 10 = d.toNat - 48 by omega, hfront, hd]

/-- Digits that 64 bits hold are taken in as the number that they stand for. -/
theorem foldl_of_absorb {high : Nat} (h : absorb high ds = (n, 0)) :
    ds.foldl (fun high d ↦ 10 * high + (d.toNat - 48)) high = n := by
  induction ds generalizing high with
  | nil => exact (Prod.mk.inj h).1
  | cons d ds ih =>
    rw [absorb] at h
    split at h
    · exact ih h
    · cases h

/-! ### Numerals -/

theorem inexact_ne_some {m significand : Nat} {exponent : Int} {left rest : AtMost m} :
    inexact significand exponent rest ≠ .ok (some n, left) := by
  rw [inexact]
  split <;> simp

theorem exponentPart_ne_some {significand : Nat} {exponent : Int} {rest : AtMost s.length} :
    exponentPart significand exponent s ≠ .ok (some n, rest) := by
  intro h
  rw [exponentPart.eq_def] at h
  dsimp only at h
  split at h
  · cases h
  · exact inexact_ne_some h

theorem fractionPart_ne_some {significand exponent : Nat} {rest : AtMost s.length} :
    fractionPart significand exponent s ≠ .ok (some n, rest) := by
  intro h
  rw [fractionPart] at h
  split at h
  · cases h
  · dsimp only at h
    split at h
    · split at h
      · split at h
        · cases h
        next hexponent =>
          obtain ⟨rfl, -⟩ := Prod.mk.inj (Except.ok.inj h)
          exact exponentPart_ne_some hexponent
      · exact inexact_ne_some h
    · exact inexact_ne_some h

theorem of_plainInteger {m significand lost : Nat} {negative : Bool} {left rest : AtMost m}
    (h : plainInteger negative significand lost rest = .ok (some n, left)) :
    negative = false ∧ significand = n ∧ lost = 0 ∧ left = rest := by
  rw [plainInteger] at h
  split at h
  · exact absurd h inexact_ne_some
  next hlost =>
    obtain ⟨hvalue, rfl⟩ := Prod.mk.inj (Except.ok.inj h)
    cases negative with
    | true => cases hvalue
    | false => exact ⟨rfl, Option.some.inj hvalue, Decidable.not_not.1 hlost, rfl⟩

/-- An integer is read if it is not negative, 64 bits hold it and nothing goes on with it. -/
theorem of_afterInteger {negative : Bool} {left : AtMost s.length}
    (h : afterInteger negative ds s = .ok (some n, left)) :
    negative = false ∧ absorb 0 ds = (n, 0) ∧ left.val = s ∧
      ∀ b ∈ s.head?, b ≠ point ∧ b ≠ octet 'e' ∧ b ≠ octet 'E' := by
  rw [afterInteger.eq_def] at h
  rcases habsorb : absorb 0 ds with ⟨significand, lost⟩
  rw [habsorb] at h
  rcases s with - | ⟨b, r⟩
  · obtain ⟨hsign, rfl, rfl, rfl⟩ := of_plainInteger h
    exact ⟨hsign, rfl, rfl, fun b hb ↦ by cases hb⟩
  · dsimp only at h
    split at h
    · split at h
      · cases h
      next hfraction =>
        obtain ⟨rfl, -⟩ := Prod.mk.inj (Except.ok.inj h)
        exact absurd hfraction fractionPart_ne_some
    next hpoint =>
      split at h
      · split at h
        · cases h
        next hexponent =>
          obtain ⟨rfl, -⟩ := Prod.mk.inj (Except.ok.inj h)
          exact absurd hexponent exponentPart_ne_some
      next hletter =>
        obtain ⟨hsign, rfl, rfl, rfl⟩ := of_plainInteger h
        refine ⟨hsign, rfl, rfl, fun c hc ↦ ?_⟩
        obtain rfl := Option.some.inj hc
        exact ⟨hpoint, not_or.1 hletter⟩

/-- Digits of an integer are those of the number that is read. -/
theorem eq_decimalOctets_of_absorb (hne : ds ≠ []) (hds : ∀ d ∈ ds, isDigit d = true)
    (hzero : ds.head? = some (octet '0') → ds.length = 1) (h : absorb 0 ds = (n, 0)) :
    ds = decimalOctets n := by
  rw [← foldl_of_absorb h]
  exact (decimalOctets_digitsValue hne hds hzero).symm

theorem of_unsignedNumeral {negative : Bool} {left : Shorter s.length}
    (h : unsignedNumeral negative s = .ok (some n, left)) :
    negative = false ∧ s = decimalOctets n ++ left.val ∧ EndsNumeral left.val := by
  rcases s with - | ⟨b, r⟩
  · cases h
  rw [unsignedNumeral] at h
  split at h
  next hzero =>
    split at h
    · cases h
    next hdigit =>
      split at h
      · cases h
      next value rest hle hafter =>
        obtain ⟨rfl, rfl⟩ := Prod.mk.inj (Except.ok.inj h)
        obtain ⟨hsign, habsorb, hrest, hends⟩ := of_afterInteger hafter
        obtain rfl : rest = r := hrest
        have hds : [b] = decimalOctets n := by
          refine eq_decimalOctets_of_absorb (List.cons_ne_nil _ _) ?_ (fun _ ↦ rfl) habsorb
          rw [List.forall_mem_singleton, hzero]
          decide
        refine ⟨hsign, by rw [← hds, List.singleton_append], fun c hc ↦ ⟨?_, hends c hc⟩⟩
        rw [Option.mem_def.1 hc] at hdigit
        simpa using hdigit
  next hzero =>
    split at h
    next hdigit =>
      split at h
      next ds rest hle htake =>
      split at h
      · cases h
      next value rest' hle' hafter =>
        obtain ⟨rfl, rfl⟩ := Prod.mk.inj (Except.ok.inj h)
        obtain ⟨hsign, habsorb, hrest, hends⟩ := of_afterInteger hafter
        obtain rfl : rest' = rest := hrest
        obtain ⟨rfl, hdrop⟩ := Prod.mk.inj htake
        obtain rfl : r.dropWhile isDigit = rest' := congrArg Subtype.val hdrop
        have hds : b :: r.takeWhile isDigit = decimalOctets n := by
          refine eq_decimalOctets_of_absorb (List.cons_ne_nil _ _) (fun d hd ↦ ?_)
            (fun h ↦ absurd (Option.some.inj h) hzero) habsorb
          rcases List.mem_cons.1 hd with rfl | hd
          · exact hdigit
          · exact List.mem_takeWhile_imp hd
        refine ⟨hsign, ?_, fun c hc ↦ ⟨?_, hends c hc⟩⟩
        · rw [← hds, List.cons_append, List.takeWhile_append_dropWhile]
        · have hnot := List.head?_dropWhile_not isDigit r
          rw [Option.mem_def.1 hc] at hnot
          simpa using hnot
    · cases h

/-- A number is read exactly from its digits, if nothing goes on with it. -/
theorem of_numeral {left : Shorter s.length} (h : numeral s = .ok (some n, left)) :
    s = decimalOctets n ++ left.val ∧ EndsNumeral left.val := by
  rcases s with - | ⟨b, r⟩
  · cases h
  rw [numeral] at h
  split at h
  · split at h
    · cases h
    next hunsigned =>
      obtain ⟨rfl, -⟩ := Prod.mk.inj (Except.ok.inj h)
      cases (of_unsignedNumeral hunsigned).1
  · exact (of_unsignedNumeral h).2

/-! ### Numbers of 32 bits -/

/-- What is found where a number is to stand. -/
def wordAt : List UInt8 → Option (UInt32 × List UInt8)
  | [] => none
  | b :: r =>
    if startsNumber b then (found (numeral (b :: r))).bind fun p ↦ p.1.bind fun n ↦
      if n < UInt32.size then some (UInt32.ofNat n, p.2) else none
    else none

theorem found_word32 (s : List UInt8) :
    found (Reader.word32 s) = wordAt (s.dropWhile isBlank) := by
  rw [Reader.word32, ← skipBlanks_val]
  rcases skipBlanks s with ⟨- | ⟨b, r⟩, h⟩
  · rfl
  by_cases hb : startsNumber b
  · simp only [wordAt, if_pos hb]
    rcases numeral (b :: r) with e | ⟨- | n, rest⟩
    · rfl
    · rfl
    · simp only [found_ok, Option.bind_some]
      by_cases hn : n < UInt32.size <;> simp [hn]
  · simp only [wordAt, if_neg hb]
    rfl

/-- A number is read exactly from its digits, if nothing goes on with it. -/
theorem of_wordAt {w : UInt32} (h : wordAt s = some (w, rest)) :
    s = decimalOctets w.toNat ++ rest ∧ EndsNumeral rest := by
  rcases s with - | ⟨b, r⟩
  · cases h
  rw [wordAt] at h
  split at h
  · rcases hnumeral : numeral (b :: r) with e | ⟨- | n, left⟩
    · rw [hnumeral] at h
      cases h
    · rw [hnumeral] at h
      cases h
    · rw [hnumeral] at h
      simp only [found_ok, Option.bind_some] at h
      split at h
      next hn =>
        obtain ⟨rfl, rfl⟩ := Prod.mk.inj (Option.some.inj h)
        rw [UInt32.toNat_ofNat_of_lt' hn]
        exact of_numeral hnumeral
      · cases h
  · cases h

theorem wordAt_decimalOctets (w : UInt32) (h : EndsNumeral rest) :
    wordAt (decimalOctets w.toNat ++ rest) = some (w, rest) := by
  have hfound : found (Reader.word32 (written (.integer w.toNat) ++ rest)) = some (w, rest) := by
    obtain ⟨hlength, hread⟩ := Reader.reads_word32 w rest h
    rw [hread, found_ok]
  obtain ⟨b, r, hr, hblank, -⟩ := exists_written_eq_cons (.integer w.toNat)
  rw [found_word32, hr, List.cons_append, List.dropWhile_cons_of_neg (by simp [hblank]),
    ← List.cons_append, ← hr, Reader.written_integer] at hfound
  exact hfound

/-! ### Numbers in texts -/

theorem octetsOf_toString (w : UInt32) : octetsOf (toString w) = decimalOctets w.toNat := by
  show octetsOf (String.ofList (Nat.toDigits 10 w.toNat)) = _
  rw [octetsOf_ofList, decimalOctets]

/-- A number that stands in the octets of a text stands in the text. -/
theorem exists_text_of_octets {text : String} {w : UInt32} {before after : List UInt8}
    (h : octetsOf text = before ++ (decimalOctets w.toNat ++ after)) :
    ∃ front back, text = front ++ toString w ++ back ∧ octetsOf front = before ∧
      octetsOf back = after := by
  have hchars : octetsOfChars text.toList = octetsOf text := by
    rw [← octetsOf_ofList, String.ofList_toList]
  obtain ⟨d, ds, hdigits, -⟩ := exists_decimalOctets_eq_cons w.toNat
  have hascii : ∀ d ∈ decimalOctets w.toNat, d.toNat < 128 := fun d hd ↦ by
    obtain ⟨hlt, hdigit⟩ := octet_digitChar_of_isDigit (isDigit_of_mem_decimalOctets d hd)
    rw [← hdigit, toNat_octet_digitChar_eq hlt]
    omega
  obtain ⟨cs₁, cs₂, rfl, rfl⟩ := exists_chars_of_octets (hchars.trans h) (by simp [hdigits]) hascii
  refine ⟨String.ofList cs₁, String.ofList cs₂, eq_of_octetsOf_eq ?_, octetsOf_ofList _,
    octetsOf_ofList _⟩
  rw [h, octetsOf_append, octetsOf_append, octetsOf_ofList, octetsOf_ofList, octetsOf_toString,
    List.append_assoc]

end SourceChain.Json
