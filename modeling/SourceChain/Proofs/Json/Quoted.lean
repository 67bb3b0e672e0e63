import SourceChain.Json.Quoted
import SourceChain.Json.Reader
import SourceChain.Json.Value

/-!
# Quoted text reads back as it was written

Text is written in characters and read in octets. The octets of a character are its code below
`0x80`, and otherwise lie above all codes that JSON gives a meaning (`plain_of_mem_encodeChar`). So
a character that is written as it stands is read as it stands, octet by octet; the others are
written as escapes, and reading these gives the octets of the character as well
(`quotedOctets_escapeChar`).
-/

namespace SourceChain.Json

/-! ### Octets of characters -/

/-- The octets of a run of characters. -/
def octetsOfChars (cs : List Char) : List UInt8 :=
  cs.flatMap String.utf8EncodeChar

@[simp]
theorem octetsOfChars_nil : octetsOfChars [] = [] :=
  rfl

@[simp]
theorem octetsOfChars_append (cs ds : List Char) :
    octetsOfChars (cs ++ ds) = octetsOfChars cs ++ octetsOfChars ds :=
  List.flatMap_append

theorem octetsOfChars_cons (c : Char) (cs : List Char) :
    octetsOfChars (c :: cs) = String.utf8EncodeChar c ++ octetsOfChars cs :=
  List.flatMap_cons

theorem octetsOf_ofList (cs : List Char) : octetsOf (String.ofList cs) = octetsOfChars cs := by
  show (String.ofList cs).toByteArray.data.toList = _
  rw [String.toByteArray_ofList, List.utf8Encode, List.toList_data_toByteArray, octetsOfChars]

/-- An ASCII character is one octet. -/
theorem encodeChar_of_lt {c : Char} (h : c.toNat < 128) : String.utf8EncodeChar c = [octet c] := by
  have hle : c.val.toNat ≤ 0x7f := Nat.le_of_lt_succ h
  rw [String.utf8EncodeChar, if_pos hle]
  rfl

theorem octetsOfChars_cons_of_lt {c : Char} (h : c.toNat < 128) (cs : List Char) :
    octetsOfChars (c :: cs) = octet c :: octetsOfChars cs := by
  rw [octetsOfChars_cons, encodeChar_of_lt h]
  rfl

/-- An octet of a character that is not ASCII lies above all of ASCII. -/
theorem le_of_mem_encodeChar {c : Char} (h : ¬ c.toNat < 128) {b : UInt8}
    (hb : b ∈ String.utf8EncodeChar c) : 128 ≤ b.toNat := by
  have hlt : ¬ c.val.toNat ≤ 0x7f := fun hle ↦ h (Nat.lt_succ_of_le hle)
  rw [String.utf8EncodeChar] at hb
  simp only [if_neg hlt] at hb
  split at hb
  · simp only [List.mem_cons, List.not_mem_nil, or_false] at hb
    rcases hb with rfl | rfl <;> rw [UInt8.toNat_ofNat'] <;> omega
  · split at hb <;> simp only [List.mem_cons, List.not_mem_nil, or_false] at hb
    · rcases hb with rfl | rfl | rfl <;> rw [UInt8.toNat_ofNat'] <;> omega
    · rcases hb with rfl | rfl | rfl | rfl <;> rw [UInt8.toNat_ofNat'] <;> omega

/-- Texts with the same octets are the same. -/
theorem eq_of_octetsOf_eq {text text' : String} (h : octetsOf text = octetsOf text') :
    text = text' :=
  String.toByteArray_inj.1 (ByteArray.ext (Array.toList_inj.1 h))

theorem octetsOf_append (text text' : String) :
    octetsOf (text ++ text') = octetsOf text ++ octetsOf text' := by
  simp [octetsOf]

/-- Characters stand on both sides of an octet of ASCII. -/
theorem exists_chars_of_octet {cs : List Char} {before after : List UInt8} {d : UInt8}
    (h : octetsOfChars cs = before ++ d :: after) (hd : d.toNat < 128) :
    ∃ cs₁ cs₂, octetsOfChars cs₁ = before ∧ octetsOfChars cs₂ = after := by
  induction cs generalizing before with
  | nil => simp at h
  | cons c cs ih =>
    rw [octetsOfChars_cons] at h
    rcases List.append_eq_append_iff.1 h with ⟨before', rfl, hrest⟩ | ⟨t, ht, hrest⟩
    · obtain ⟨cs₁, cs₂, rfl, rfl⟩ := ih hrest
      exact ⟨c :: cs₁, cs₂, octetsOfChars_cons c cs₁, rfl⟩
    · rcases t with - | ⟨b, t⟩
      · have hcs : octetsOfChars cs = [] ++ d :: after := hrest.symm
        obtain ⟨-, cs₂, -, rfl⟩ := ih hcs
        exact ⟨[c], cs₂, by rw [octetsOfChars_cons, ht]; simp, rfl⟩
      · -- the octet is one of the character's, which is ASCII then and has no other
        obtain ⟨rfl, hafter⟩ := List.cons.inj hrest
        have hc : c.toNat < 128 := Decidable.byContradiction fun hc ↦ Nat.not_lt.2
          (le_of_mem_encodeChar hc (ht ▸ List.mem_append_right _ List.mem_cons_self)) hd
        obtain ⟨rfl, hone⟩ : before = [] ∧ t = [] := by
          rw [encodeChar_of_lt hc] at ht
          rcases before with - | ⟨b, before⟩
          · exact ⟨rfl, (List.cons.inj ht).2.symm⟩
          · simp at ht
        exact ⟨[], cs, rfl, by rw [hafter, hone]; rfl⟩

/-- Characters stand on both sides of a run of ASCII. -/
theorem exists_chars_of_octets {cs : List Char} {before after ds : List UInt8}
    (h : octetsOfChars cs = before ++ (ds ++ after)) (hne : ds ≠ [])
    (hds : ∀ d ∈ ds, d.toNat < 128) :
    ∃ cs₁ cs₂, octetsOfChars cs₁ = before ∧ octetsOfChars cs₂ = after := by
  induction ds generalizing cs before with
  | nil => exact absurd rfl hne
  | cons d ds ih =>
    obtain ⟨cs₁, cs₂, rfl, hcs₂⟩ := exists_chars_of_octet h (hds d List.mem_cons_self)
    rcases ds with - | ⟨d', ds⟩
    · exact ⟨cs₁, cs₂, rfl, hcs₂⟩
    · have hnext : octetsOfChars cs₂ = [] ++ (d' :: ds ++ after) := hcs₂
      obtain ⟨-, cs₃, -, rfl⟩ := ih hnext (List.cons_ne_nil _ _)
        fun b hb ↦ hds b (List.mem_cons_of_mem _ hb)
      exact ⟨cs₁, cs₃, rfl, rfl⟩

/-! ### Reading inside quotes -/

/-- Whether an octet stands for itself inside quotes. -/
def IsPlain (b : UInt8) : Prop :=
  b ≠ quote ∧ b ≠ backslash ∧ ¬ b < 0x20

/-- The octets of a character that needs no escape stand for themselves. -/
theorem plain_of_mem_encodeChar {c : Char} (hquote : c ≠ '"') (hbackslash : c ≠ '\\')
    (hcontrol : ¬ c.toNat < 0x20) : ∀ b ∈ String.utf8EncodeChar c, IsPlain b := by
  intro b hb
  have hplain : ∀ {n : Nat}, b.toNat = n → n ≠ 0x22 → n ≠ 0x5C → 0x20 ≤ n → IsPlain b := by
    rintro _ rfl hn₁ hn₂ hn₃
    refine ⟨fun h ↦ hn₁ (h ▸ rfl), fun h ↦ hn₂ (h ▸ rfl), fun h ↦ ?_⟩
    exact absurd (UInt8.lt_iff_toNat_lt.1 h) (Nat.not_lt.2 hn₃)
  by_cases hascii : c.toNat < 128
  · rw [encodeChar_of_lt hascii, List.mem_singleton] at hb
    subst hb
    have hcode : (octet c).toNat = c.toNat := by
      show c.toNat % 256 = c.toNat
      exact Nat.mod_eq_of_lt (by omega)
    refine hplain hcode (fun h ↦ hquote ?_) (fun h ↦ hbackslash ?_) (Nat.not_lt.1 hcontrol)
    · exact Char.toNat_inj.1 h
    · exact Char.toNat_inj.1 h
  -- an octet of a longer character is above everything that has a meaning
  · have hle := le_of_mem_encodeChar hascii hb
    exact hplain rfl (by omega) (by omega) (by omega)

variable {n : Nat}

/-- Octets that stand for themselves are taken over. -/
theorem quotedOctets_append {bs : List UInt8} (hbs : ∀ b ∈ bs, IsPlain b) (done rest : List UInt8)
    (h : (bs ++ rest).length ≤ n) (h' : rest.length ≤ n) :
    quotedOctets n done (bs ++ rest) h = quotedOctets n (bs.reverse ++ done) rest h' := by
  induction bs generalizing done with
  | nil => rfl
  | cons b bs ih =>
    obtain ⟨hquote, hbackslash, hcontrol⟩ := hbs b List.mem_cons_self
    have hlength : (bs ++ rest).length ≤ n := Nat.le_of_succ_le h
    have hstep : quotedOctets n done (b :: (bs ++ rest)) h =
        quotedOctets n (b :: done) (bs ++ rest) hlength := by
      rw [quotedOctets, if_neg hquote, if_neg hbackslash, if_neg hcontrol]
    rw [List.reverse_cons, List.append_assoc]
    exact hstep.trans (ih (fun x hx ↦ hbs x (List.mem_cons_of_mem b hx)) (b :: done) hlength)

/-- An escape gives the octets that it stands for. -/
theorem quotedOctets_backslash {r rest octets : List UInt8} {hr : rest.length < r.length}
    (hescape : escape r = .ok (octets, ⟨rest, hr⟩)) (done : List UInt8)
    (h : (backslash :: r).length ≤ n) (h' : rest.length ≤ n) :
    quotedOctets n done (backslash :: r) h = quotedOctets n (octets.reverse ++ done) rest h' := by
  have hne : backslash ≠ quote := by decide
  rw [quotedOctets, if_neg hne, if_pos rfl, hescape]

/-- A one-letter escape gives its character. -/
theorem quotedOctets_short {c letter : Char} (hc : c.toNat < 128) (hletter : letter.toNat < 128)
    (hunit : octet letter ≠ octet 'u') (hshort : shortEscape? (octet letter) = some (octet c))
    (done rest : List UInt8) (h : (octetsOfChars ['\\', letter] ++ rest).length ≤ n)
    (h' : rest.length ≤ n) :
    quotedOctets n done (octetsOfChars ['\\', letter] ++ rest) h =
      quotedOctets n ((String.utf8EncodeChar c).reverse ++ done) rest h' := by
  have hescape : escape (octet letter :: rest) = .ok ([octet c], ⟨rest, Nat.lt_succ_self _⟩) := by
    rw [escape, if_neg hunit, hshort]
  have hwritten : octetsOfChars ['\\', letter] ++ rest = backslash :: octet letter :: rest := by
    rw [octetsOfChars_cons_of_lt (by decide), octetsOfChars_cons_of_lt hletter]
    rfl
  simp only [hwritten, encodeChar_of_lt hc]
  exact quotedOctets_backslash hescape done _ h'

/-- The hexadecimal digit of a number has its value. -/
theorem hexValue?_digitChar {d : Nat} (h : d < 16) : hexValue? (octet d.digitChar) = some d := by
  decide +revert

theorem toNat_digitChar_lt {d : Nat} (h : d < 16) : d.digitChar.toNat < 128 := by
  decide +revert

/-- A numeric escape gives its control character. -/
theorem quotedOctets_unit {c : Char} (hc : c.toNat < 0x20) (done rest : List UInt8)
    (h : (octetsOfChars ['\\', 'u', '0', '0', (c.toNat / 16).digitChar, (c.toNat % 16).digitChar]
      ++ rest).length ≤ n) (h' : rest.length ≤ n) :
    quotedOctets n done (octetsOfChars
        ['\\', 'u', '0', '0', (c.toNat / 16).digitChar, (c.toNat % 16).digitChar] ++ rest) h =
      quotedOctets n ((String.utf8EncodeChar c).reverse ++ done) rest h' := by
  have hhigh : c.toNat / 16 < 16 := by omega
  have hlow : c.toNat % 16 < 16 := by omega
  have hunit : ((0 * 16 + 0) * 16 + c.toNat / 16) * 16 + c.toNat % 16 = c.toNat := by omega
  have hsurrogate : isLowSurrogate c.toNat = false ∧ isHighSurrogate c.toNat = false := by
    simp only [isLowSurrogate, isHighSurrogate, Bool.and_eq_false_iff, decide_eq_false_iff_not]
    omega
  have hzero : hexValue? (octet '0') = some 0 := by decide
  obtain ⟨hlt, hescape⟩ : ∃ hlt, escape (octet 'u' :: octet '0' :: octet '0' ::
      octet (c.toNat / 16).digitChar :: octet (c.toNat % 16).digitChar :: rest) =
        .ok (String.utf8EncodeChar c, ⟨rest, hlt⟩) := by
    refine ⟨by simp only [List.length_cons]; omega, ?_⟩
    simp only [escape, if_true, hexUnit, hzero, hexValue?_digitChar hhigh, hexValue?_digitChar hlow,
      hunit, hsurrogate, Bool.false_eq_true, if_false, codeOctets, Char.ofNat_toNat]
  have hwritten : octetsOfChars
      ['\\', 'u', '0', '0', (c.toNat / 16).digitChar, (c.toNat % 16).digitChar] ++ rest =
        backslash :: octet 'u' :: octet '0' :: octet '0' :: octet (c.toNat / 16).digitChar ::
          octet (c.toNat % 16).digitChar :: rest := by
    rw [octetsOfChars_cons_of_lt (by decide), octetsOfChars_cons_of_lt (by decide),
      octetsOfChars_cons_of_lt (by decide), octetsOfChars_cons_of_lt (by decide),
      octetsOfChars_cons_of_lt (toNat_digitChar_lt hhigh),
      octetsOfChars_cons_of_lt (toNat_digitChar_lt hlow)]
    rfl
  simp only [hwritten]
  exact quotedOctets_backslash hescape done _ h'

/-- Reading what is written for a character gives its octets. -/
theorem quotedOctets_escapeChar (c : Char) (done rest : List UInt8)
    (h : (octetsOfChars (escapeChar c) ++ rest).length ≤ n) (h' : rest.length ≤ n) :
    quotedOctets n done (octetsOfChars (escapeChar c) ++ rest) h =
      quotedOctets n ((String.utf8EncodeChar c).reverse ++ done) rest h' := by
  revert h
  rw [escapeChar.eq_def]
  split
  next => exact fun h ↦ quotedOctets_short (by decide) (by decide) (by decide) (by decide) _ _ h h'
  next => exact fun h ↦ quotedOctets_short (by decide) (by decide) (by decide) (by decide) _ _ h h'
  next => exact fun h ↦ quotedOctets_short (by decide) (by decide) (by decide) (by decide) _ _ h h'
  next => exact fun h ↦ quotedOctets_short (by decide) (by decide) (by decide) (by decide) _ _ h h'
  next => exact fun h ↦ quotedOctets_short (by decide) (by decide) (by decide) (by decide) _ _ h h'
  next => exact fun h ↦ quotedOctets_short (by decide) (by decide) (by decide) (by decide) _ _ h h'
  next => exact fun h ↦ quotedOctets_short (by decide) (by decide) (by decide) (by decide) _ _ h h'
  next hquote hbackslash _ _ _ _ _ =>
    split
    next hcontrol => exact fun h ↦ quotedOctets_unit hcontrol _ _ h h'
    next hcontrol =>
      have hself : octetsOfChars [c] = String.utf8EncodeChar c := by
        rw [octetsOfChars_cons, octetsOfChars_nil, List.append_nil]
      simp only [hself]
      exact fun h ↦ quotedOctets_append (plain_of_mem_encodeChar hquote hbackslash hcontrol) _ _ h h'

/-- Reading what is written for characters gives their octets, up to the closing quote. -/
theorem quotedOctets_escaped (cs : List Char) (done rest : List UInt8)
    (h : (octetsOfChars (cs.flatMap escapeChar) ++ quote :: rest).length ≤ n)
    (h' : rest.length < n) :
    quotedOctets n done (octetsOfChars (cs.flatMap escapeChar) ++ quote :: rest) h =
      .ok (done.reverse ++ octetsOfChars cs, ⟨rest, h'⟩) := by
  induction cs generalizing done with
  | nil =>
    show quotedOctets n done (quote :: rest) h' = .ok (done.reverse ++ [], ⟨rest, h'⟩)
    rw [quotedOctets, if_pos rfl, List.append_nil]
  | cons c cs ih =>
    have hrest : (octetsOfChars (cs.flatMap escapeChar) ++ quote :: rest).length ≤ n := by
      rw [List.flatMap_cons, octetsOfChars_append, List.append_assoc, List.length_append] at h
      exact Nat.le_trans (Nat.le_add_left _ _) h
    have hsplit : octetsOfChars ((c :: cs).flatMap escapeChar) ++ quote :: rest =
        octetsOfChars (escapeChar c) ++ (octetsOfChars (cs.flatMap escapeChar) ++ quote :: rest) := by
      rw [List.flatMap_cons, octetsOfChars_append, List.append_assoc]
    simp only [hsplit]
    rw [quotedOctets_escapeChar c done _ _ hrest, ih _ hrest, octetsOfChars_cons,
      List.reverse_append, List.reverse_reverse, List.append_assoc]

theorem fromUTF8?_octetsOfChars (text : String) :
    String.fromUTF8? (octetsOfChars text.toList).toByteArray = some text := by
  have hencode : (octetsOfChars text.toList).toByteArray = text.toByteArray :=
    String.utf8Encode_toList
  rw [hencode, String.fromUTF8?, dif_pos text.isValidUTF8]
  rfl

/-- Reading a text behind its opening quote gives it back, whatever stands behind it. -/
theorem quotedText_escaped (text : String) (rest : List UInt8) :
    ∃ h, quotedText (octetsOfChars (text.toList.flatMap escapeChar) ++ quote :: rest) =
      .ok (text, ⟨rest, h⟩) := by
  have hlength : rest.length <
      (octetsOfChars (text.toList.flatMap escapeChar) ++ quote :: rest).length := by
    rw [List.length_append, List.length_cons]
    omega
  refine ⟨hlength, ?_⟩
  rw [quotedText, quotedOctets_escaped text.toList [] rest (Nat.le_refl _) hlength]
  simp only [List.reverse_nil, List.nil_append, fromUTF8?_octetsOfChars]

end SourceChain.Json
