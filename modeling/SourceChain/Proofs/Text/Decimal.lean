import Mathlib.Data.List.Induction
import Mathlib.Data.List.TakeWhile
import SourceChain.Text.Blank
import SourceChain.Text.Decimal

/-!
# What numerals say

Which number a numeral is for is said by a relation that grows a numeral at its end, one digit at a
time (`IsNumeral`). Reading goes through the digits from the front and carries the part it has read,
so the two meet at the last digit: reading one digit more is reading that digit
(`extendNatural?_concat`).

A numeral may have a plus sign in front, and blanks on both sides of that (`IsUnsigned`,
`IsPadded`). What is left after trimming is a numeral with its sign exactly if the text is one with
blanks around it (`word32?_trim_eq_some_iff`). This needs that no character of a numeral is blank,
and nothing else about which characters are.
-/

namespace SourceChain.Text

/-! ### Digits -/

theorem digitValue?_digitChar {d : Nat} (h : d < 10) : digitValue? d.digitChar = some d := by
  decide +revert

theorem isBlank_digitChar {d : Nat} (h : d < 10) : isBlank d.digitChar = false := by
  decide +revert

theorem digitChar_ne_plus {d : Nat} (h : d < 10) : d.digitChar ≠ '+' := by
  decide +revert

theorem digitChar_ne_colon {d : Nat} (h : d < 10) : d.digitChar ≠ ':' := by
  decide +revert

/-- A digit is the character for a number below ten. -/
theorem digitValue?_eq_some_iff {c : Char} {d : Nat} :
    digitValue? c = some d ↔ d < 10 ∧ c = d.digitChar := by
  constructor
  · intro h
    rw [digitValue?] at h
    split at h
    next hc =>
      obtain rfl := Option.some.inj h
      have hlow : 48 ≤ c.toNat := hc.1
      have hhigh : c.toNat ≤ 57 := hc.2
      have hzero : '0'.toNat = 48 := rfl
      have hlt : c.toNat - '0'.toNat < 10 := by omega
      refine ⟨hlt, Char.toNat_inj.1 ?_⟩
      rw [Nat.toNat_digitChar_of_lt_ten hlt]
      omega
    next => cases h
  · rintro ⟨hd, rfl⟩
    exact digitValue?_digitChar hd

/-! ### Numerals -/

/-- Which number one or more digits are the numeral for. Zeros may lead. -/
inductive IsNumeral : List Char → Nat → Prop
  /-- A digit by itself. -/
  | digit {d : Nat} (hd : d < 10) : IsNumeral [d.digitChar] d
  /-- A digit behind a numeral. -/
  | concat {cs : List Char} {n d : Nat} (h : IsNumeral cs n) (hd : d < 10) :
      IsNumeral (cs ++ [d.digitChar]) (10 * n + d)

section Numeral

variable {cs : List Char} {n : Nat}

theorem IsNumeral.ne_nil (h : IsNumeral cs n) : cs ≠ [] := by
  cases h <;> simp

/-- The characters of a numeral are digits. -/
theorem IsNumeral.exists_of_mem (h : IsNumeral cs n) : ∀ c ∈ cs, ∃ d < 10, c = d.digitChar := by
  induction h with
  | digit hd =>
    intro c hc
    exact ⟨_, hd, List.mem_singleton.1 hc⟩
  | concat _ hd ih =>
    intro c hc
    rcases List.mem_append.1 hc with hc | hc
    · exact ih c hc
    · exact ⟨_, hd, List.mem_singleton.1 hc⟩

theorem natural?_of_ne_nil (h : cs ≠ []) : natural? cs = extendNatural? 0 cs := by
  cases cs with
  | nil => exact absurd rfl h
  | cons c cs => rfl

/-- Reading goes on from what it has read. -/
theorem extendNatural?_append (high : Nat) (cs ds : List Char) :
    extendNatural? high (cs ++ ds) = (extendNatural? high cs).bind (extendNatural? · ds) := by
  induction cs generalizing high with
  | nil => rfl
  | cons c cs ih =>
    rw [List.cons_append, extendNatural?, extendNatural?]
    rcases digitValue? c with - | d
    · rfl
    · exact ih _

/-- Reading one digit more is reading that digit. -/
theorem extendNatural?_concat {high m : Nat} {c : Char} :
    extendNatural? high (cs ++ [c]) = some m ↔
      ∃ n d, extendNatural? high cs = some n ∧ digitValue? c = some d ∧ 10 * n + d = m := by
  have hlast : ∀ n, extendNatural? n [c] = (digitValue? c).map (10 * n + ·) := by
    intro n
    rw [extendNatural?]
    rcases digitValue? c with - | d <;> rfl
  rw [extendNatural?_append, Option.bind_eq_some_iff]
  simp only [hlast, Option.map_eq_some_iff]
  constructor
  · rintro ⟨n, hn, d, hd, hm⟩
    exact ⟨n, d, hn, hd, hm⟩
  · rintro ⟨n, d, hn, hd, hm⟩
    exact ⟨n, hn, d, hd, hm⟩

/-- What is read as a number is a numeral for it. -/
theorem isNumeral_of_natural? (h : natural? cs = some n) : IsNumeral cs n := by
  induction cs using List.reverseRecOn generalizing n with
  | nil => cases h
  | append_singleton cs c ih =>
    rw [natural?_of_ne_nil (by simp), extendNatural?_concat] at h
    obtain ⟨m, d, hm, hd, rfl⟩ := h
    obtain ⟨hlt, rfl⟩ := digitValue?_eq_some_iff.1 hd
    by_cases hcs : cs = []
    · subst hcs
      obtain rfl := Option.some.inj hm
      rw [Nat.mul_zero, Nat.zero_add]
      exact .digit hlt
    · exact .concat (ih (by rw [natural?_of_ne_nil hcs, hm])) hlt

theorem IsNumeral.natural?_eq (h : IsNumeral cs n) : natural? cs = some n := by
  rw [natural?_of_ne_nil h.ne_nil]
  induction h with
  | @digit d hd =>
    rw [extendNatural?, digitValue?_digitChar hd]
    show some (10 * 0 + d) = some d
    rw [Nat.mul_zero, Nat.zero_add]
  | concat _ hd ih => exact extendNatural?_concat.2 ⟨_, _, ih, digitValue?_digitChar hd, rfl⟩

/-- The digits that are written for a number are a numeral for it. -/
theorem isNumeral_toDigits (n : Nat) : IsNumeral (Nat.toDigits 10 n) n := by
  induction n using Nat.strongRecOn with
  | ind n ih =>
    rcases Nat.lt_or_ge n 10 with hn | hn
    · rw [Nat.toDigits_of_lt_base hn]
      exact .digit hn
    · have h := (ih (n / 10) (by omega)).concat (Nat.mod_lt n (by decide))
      rw [Nat.div_add_mod] at h
      rw [Nat.toDigits_of_base_le (by decide) hn]
      exact h

end Numeral

/-! ### Signs and blanks -/

/-- A numeral that may have a plus sign in front. -/
inductive IsUnsigned : List Char → Nat → Prop
  | plain {cs : List Char} {n : Nat} (h : IsNumeral cs n) : IsUnsigned cs n
  | plus {cs : List Char} {n : Nat} (h : IsNumeral cs n) : IsUnsigned ('+' :: cs) n

/-- A numeral that may have a plus sign in front, and blanks on both sides. -/
inductive IsPadded : List Char → Nat → Prop
  | intro {before body after : List Char} {n : Nat} (h : IsUnsigned body n)
      (hbefore : ∀ c ∈ before, isBlank c) (hafter : ∀ c ∈ after, isBlank c) :
      IsPadded (before ++ body ++ after) n

section Padded

variable {cs : List Char} {n : Nat}

theorem IsUnsigned.eq_plus_or_digit (h : IsUnsigned cs n) :
    ∀ c ∈ cs, c = '+' ∨ ∃ d < 10, c = d.digitChar := by
  cases h with
  | plain h => exact fun c hc ↦ .inr (h.exists_of_mem c hc)
  | plus h =>
    intro c hc
    rcases List.mem_cons.1 hc with rfl | hc
    · exact .inl rfl
    · exact .inr (h.exists_of_mem c hc)

theorem IsUnsigned.not_isBlank (h : IsUnsigned cs n) : ∀ c ∈ cs, isBlank c = false := by
  intro c hc
  rcases h.eq_plus_or_digit c hc with rfl | ⟨d, hd, rfl⟩
  · decide
  · exact isBlank_digitChar hd

/-- There need not be any blanks. -/
theorem IsUnsigned.isPadded (h : IsUnsigned cs n) : IsPadded cs n := by
  have hpadded := @IsPadded.intro [] cs [] n h (by simp) (by simp)
  rwa [List.nil_append, List.append_nil] at hpadded

/-- There is no colon in a numeral, nor in the blanks around it. -/
theorem IsPadded.not_mem_colon (h : IsPadded cs n) : ':' ∉ cs := by
  obtain ⟨h, hbefore, hafter⟩ := h
  have hcolon : ¬ isBlank ':' := by decide
  simp only [List.mem_append, not_or]
  refine ⟨⟨fun hc ↦ hcolon (hbefore _ hc), fun hc ↦ ?_⟩, fun hc ↦ hcolon (hafter _ hc)⟩
  rcases h.eq_plus_or_digit _ hc with h | ⟨d, hd, h⟩
  · exact absurd h (by decide)
  · exact digitChar_ne_colon hd h.symm

/-- A text without the plus sign that it may start with. -/
def withoutSign : List Char → List Char
  | '+' :: rest => rest
  | cs => cs

theorem isUnsigned_iff : IsUnsigned cs n ↔ IsNumeral (withoutSign cs) n := by
  constructor
  · rintro (h | h)
    · rw [withoutSign]
      · exact h
      · rintro ds rfl
        -- no numeral starts with the sign
        obtain ⟨d, hd, hplus⟩ := h.exists_of_mem '+' List.mem_cons_self
        exact digitChar_ne_plus hd hplus.symm
    · exact h
  · intro h
    rw [withoutSign.eq_def] at h
    split at h
    · exact .plus h
    · exact .plain h

/-- A word is read exactly from the numerals for its number. -/
theorem word32?_eq_some_iff {w : UInt32} : word32? cs = some w ↔ IsUnsigned cs w.toNat := by
  have hread : word32? cs = (natural? (withoutSign cs)).bind fun n ↦
      if n < UInt32.size then some (UInt32.ofNat n) else none := by
    rw [word32?.eq_def]
    dsimp only
    split
    next n hn =>
      have hdigits : natural? (withoutSign cs) = some n := hn
      rw [hdigits, Option.bind_some]
    next hn =>
      have hdigits : natural? (withoutSign cs) = none := hn
      rw [hdigits, Option.bind_none]
  rw [hread, isUnsigned_iff, Option.bind_eq_some_iff]
  constructor
  · rintro ⟨n, hn, hw⟩
    split at hw
    next hlt =>
      obtain rfl := Option.some.inj hw
      rw [UInt32.toNat_ofNat_of_lt' hlt]
      exact isNumeral_of_natural? hn
    next => cases hw
  · intro h
    refine ⟨w.toNat, h.natural?_eq, ?_⟩
    rw [if_pos w.toNat_lt_size, UInt32.ofNat_toNat]

/-- Trimming takes blanks off at both ends. -/
theorem exists_eq_append_trim (cs : List Char) :
    ∃ before after, (∀ c ∈ before, isBlank c) ∧ (∀ c ∈ after, isBlank c) ∧
      cs = before ++ trim cs ++ after := by
  refine ⟨cs.takeWhile isBlank, ((cs.dropWhile isBlank).reverse.takeWhile isBlank).reverse,
    fun c hc ↦ List.mem_takeWhile_imp hc, fun c hc ↦ List.mem_takeWhile_imp (List.mem_reverse.1 hc),
    ?_⟩
  rw [trim, List.append_assoc, ← List.reverse_append, List.takeWhile_append_dropWhile,
    List.reverse_reverse, List.takeWhile_append_dropWhile]

/-- Trimming leaves what has no blanks. -/
theorem trim_append {before body after : List Char} (hbefore : ∀ c ∈ before, isBlank c)
    (hafter : ∀ c ∈ after, isBlank c) (hbody : ∀ c ∈ body, isBlank c = false) :
    trim (before ++ body ++ after) = body := by
  rw [trim, List.append_assoc, List.dropWhile_append_of_pos hbefore]
  cases body with
  | nil => rw [List.nil_append, List.dropWhile_eq_nil_iff.2 hafter]; rfl
  | cons c body =>
    have hfront : isBlank c = false := hbody c List.mem_cons_self
    have hback : (c :: body).reverse.dropWhile isBlank = (c :: body).reverse := by
      refine List.dropWhile_eq_self_iff.2 fun hlength ↦ ?_
      rw [hbody _ (List.mem_reverse.1 (List.getElem_mem hlength))]
      exact Bool.false_ne_true
    rw [List.cons_append, List.dropWhile_cons_of_neg (by rw [hfront]; exact Bool.false_ne_true),
      ← List.cons_append, List.reverse_append,
      List.dropWhile_append_of_pos fun c hc ↦ hafter c (List.mem_reverse.1 hc), hback,
      List.reverse_reverse]

/-- What is left after trimming is read as a word exactly if the text is a numeral for it, blanks
aside. -/
theorem word32?_trim_eq_some_iff {w : UInt32} :
    word32? (trim cs) = some w ↔ IsPadded cs w.toNat := by
  rw [word32?_eq_some_iff]
  constructor
  · intro h
    obtain ⟨before, after, hbefore, hafter, hcs⟩ := exists_eq_append_trim cs
    rw [hcs]
    exact .intro h hbefore hafter
  · rintro ⟨h, hbefore, hafter⟩
    rwa [trim_append hbefore hafter h.not_isBlank]

end Padded

end SourceChain.Text
