import Mathlib.Data.List.Induction
import Mathlib.Tactic.Push
import SourceChain.Proofs.Json.Quoted
import SourceChain.Proofs.Vlq.Shortest

/-!
# Which octets are a run of quantities

A text is a run of quantities if its octets are digits that part into numbers of at most twelve
digits. Each number stands for the sum of its digits, each weighted by its place, with the lowest
bit taken as the sign (`integerOf`).

Reading goes through the octets once. Wherever it stands, it has behind it some complete numbers
and the digits so far of one that is not complete (`Scanned`), and that decides what it does next
(`decodeFrom_scanned`). Every run of octets is scanned to its end, or up to a first octet that is no
digit or is the thirteenth of its number (`exists_scanned`); so there are four ways for a reading to
end (`Ending`), and every text has exactly one of them (`decode_eq_iff_ending`).

Reading looks at characters and the grammar at octets. An octet of a digit is a whole character, and
none that belongs to a longer character is a digit, so the two never disagree on where a digit is
(`exists_chars_of_octets`).
-/

namespace SourceChain.Vlq

open Json (octetsOf octetsOfChars octetsOfChars_cons octetsOfChars_cons_of_lt encodeChar_of_lt
  le_of_mem_encodeChar)

/-! ### Digits as octets -/

/-- The Base64 alphabet, in the order of the digits. -/
def alphabet : List Char :=
  "ABCDEFGHIJKLMNOPQRSTUVWXYZabcdefghijklmnopqrstuvwxyz0123456789+/".toList

/-- The octet of a digit. -/
def Digit.octet (d : Digit) : UInt8 :=
  (alphabet.getD d 'A').toUInt8

namespace Digit

theorem getD_alphabet (d : Digit) : alphabet.getD d 'A' = d.toChar := by
  decide +kernel +revert

theorem toNat_toChar_lt (d : Digit) : d.toChar.toNat < 128 := by
  decide +revert

theorem octet_toChar (d : Digit) : Json.octet d.toChar = d.octet := by
  rw [octet, getD_alphabet]
  rfl

theorem toNat_octet (d : Digit) : d.octet.toNat = d.toChar.toNat := by
  rw [← octet_toChar]
  exact Nat.mod_eq_of_lt (Nat.lt_trans d.toNat_toChar_lt (by decide))

end Digit

/-- A character of the alphabet is the octet of its digit. -/
theorem octetsOfChars_toChar_cons (d : Digit) (cs : List Char) :
    octetsOfChars (d.toChar :: cs) = d.octet :: octetsOfChars cs := by
  rw [octetsOfChars_cons_of_lt d.toNat_toChar_lt, d.octet_toChar]

theorem octetsOfChars_map_toChar (ds : List Digit) :
    octetsOfChars (ds.map Digit.toChar) = ds.map Digit.octet := by
  induction ds with
  | nil => rfl
  | cons d ds ih => rw [List.map_cons, octetsOfChars_toChar_cons, ih, List.map_cons]

/-- The octets of a character are its first octet and others. -/
theorem exists_encodeChar_eq_cons (c : Char) :
    ∃ rest, String.utf8EncodeChar c = leadOctet c :: rest := by
  rw [leadOctet]
  rcases hoctets : String.utf8EncodeChar c with - | ⟨b, rest⟩
  · have hlength := String.length_utf8EncodeChar c
    rw [hoctets] at hlength
    exact absurd hlength (Nat.ne_of_lt c.utf8Size_pos)
  · exact ⟨rest, rfl⟩

/-- A character that starts with the octet of a digit is the character of that digit. -/
theorem eq_toChar_of_leadOctet {c : Char} {d : Digit} (h : leadOctet c = d.octet) :
    c = d.toChar := by
  obtain ⟨rest, hoctets⟩ := exists_encodeChar_eq_cons c
  by_cases hascii : c.toNat < 128
  · rw [encodeChar_of_lt hascii] at hoctets
    have hcode : (Json.octet c).toNat = d.octet.toNat := by rw [(List.cons.inj hoctets).1, h]
    have hsmall : (Json.octet c).toNat = c.toNat :=
      Nat.mod_eq_of_lt (Nat.lt_trans hascii (by decide))
    rw [hsmall, d.toNat_octet] at hcode
    exact Char.toNat_inj.1 hcode
  · have hmem : leadOctet c ∈ String.utf8EncodeChar c := hoctets ▸ List.mem_cons_self
    have hle := le_of_mem_encodeChar hascii hmem
    have hlt := d.toNat_toChar_lt
    rw [h, d.toNat_octet] at hle
    omega

/-- A character is no digit exactly if its first octet is none. -/
theorem ofChar?_eq_none_iff {c : Char} :
    Digit.ofChar? c = none ↔ ∀ d : Digit, d.octet ≠ leadOctet c := by
  constructor
  · intro h d hd
    rw [eq_toChar_of_leadOctet hd.symm, Digit.ofChar?_toChar] at h
    cases h
  · intro h
    rcases hd : Digit.ofChar? c with - | d
    · rfl
    · obtain rfl := Digit.ofChar?_eq_some_iff.1 hd
      obtain ⟨rest, hoctets⟩ := exists_encodeChar_eq_cons d.toChar
      rw [encodeChar_of_lt d.toNat_toChar_lt, d.octet_toChar] at hoctets
      exact absurd (List.cons.inj hoctets).1 (h d)

/-- Octets of digits at the front of a text are characters of it. -/
theorem exists_chars_of_octets {cs : List Char} {ds : List Digit} {rest : List UInt8}
    (h : octetsOfChars cs = ds.map Digit.octet ++ rest) :
    ∃ cs', cs = ds.map Digit.toChar ++ cs' ∧ octetsOfChars cs' = rest := by
  induction ds generalizing cs with
  | nil => exact ⟨cs, rfl, h⟩
  | cons d ds ih =>
    rcases cs with - | ⟨c, cs⟩
    · cases h
    · obtain ⟨others, hoctets⟩ := exists_encodeChar_eq_cons c
      have hfirst : leadOctet c = d.octet := by
        rw [octetsOfChars_cons, hoctets] at h
        exact (List.cons.inj h).1
      obtain rfl := eq_toChar_of_leadOctet hfirst
      rw [octetsOfChars_toChar_cons] at h
      obtain ⟨cs', rfl, hrest⟩ := ih (List.cons.inj h).2
      exact ⟨cs', rfl, hrest⟩

/-! ### What a number stands for -/

/-- The integer that an assembled number stands for: the lowest bit is the sign, and the rest the
magnitude. -/
def integerOf (word : Nat) : Int :=
  if word % 2 = 0 then (word / 2 : Nat) else -(word / 2 : Nat)

/-- The digits of a number added up, each weighted by its place. -/
def weightedSum (ds : List Digit) : Nat :=
  (ds.mapIdx fun place d ↦ d.val % 32 * 32 ^ place).sum

/-- Digits that stand higher up weigh more. -/
theorem sum_mapIdx (ds : List Digit) (height : Nat) :
    (ds.mapIdx fun place d ↦ d.val % 32 * 32 ^ (height + place)).sum =
      32 ^ height * wordOf ds := by
  induction ds generalizing height with
  | nil => rfl
  | cons d ds ih =>
    have hshift : (fun place (e : Digit) ↦ e.val % 32 * 32 ^ (height + (place + 1))) =
        fun place e ↦ e.val % 32 * 32 ^ (height + 1 + place) := by
      funext place e
      rw [Nat.add_comm place, Nat.add_assoc]
    rw [List.mapIdx_cons, List.sum_cons, hshift, ih, wordOf, Digit.payload, Nat.add_zero]
    ring

theorem weightedSum_eq_wordOf (ds : List Digit) : weightedSum ds = wordOf ds := by
  have hsum := sum_mapIdx ds 0
  simp only [Nat.zero_add, Nat.pow_zero, Nat.one_mul] at hsum
  exact hsum

/-- A word of sixty bits is the integer that it stands for. -/
theorem toInt_ofWord {n : Nat} (h : n < 2 ^ 60) :
    (ofWord (Int64.ofNat n)).toInt = integerOf n := by
  rw [integerOf]
  obtain ⟨k, rfl | rfl⟩ : ∃ k, n = 2 * k ∨ n = 2 * k + 1 := ⟨n / 2, by omega⟩
  · rw [ofWord_even (by omega), Int64.toInt_ofNat_of_lt (by omega), if_pos (by omega)]
    omega
  · rw [ofWord_odd (by omega), Int64.toInt_neg_ofNat_of_le (by omega), if_neg (by omega)]
    omega

theorem toInt_valueOf {ds : List Digit} (h : ds.length ≤ maxDigits) :
    (valueOf ds).toInt = integerOf (weightedSum ds) := by
  rw [valueOf, toInt_ofWord (wordOf_lt_of_length_le h), weightedSum_eq_wordOf]

theorem map_toInt_valueOf {numbers : List (List Digit)} (h : ∀ n ∈ numbers, n.length ≤ maxDigits) :
    (numbers.map valueOf).map Int64.toInt = numbers.map (integerOf ∘ weightedSum) := by
  rw [List.map_map]
  exact List.map_congr_left fun n hn ↦ toInt_valueOf (h n hn)

/-! ### Scanning -/

/-- What reading has behind it in the middle of a text: some complete numbers, and the digits so far
of one that is not complete. None of them has more than twelve digits. -/
structure Scanned (octets : List UInt8) (numbers : List (List Digit)) (pending : List Digit) :
    Prop where
  /-- The octets are the digits of the numbers. -/
  octets_eq : octets = (numbers.flatten ++ pending).map Digit.octet
  /-- Each number but the last ends in a digit that no other follows. -/
  complete : ∀ n ∈ numbers, IsNumber n ∧ n.length ≤ 12
  /-- Each digit of the last says that another follows. -/
  continues : ∀ d ∈ pending, d.continues = true
  /-- The last may have one digit more, unless it has twelve. -/
  length_le : pending.length ≤ 12

theorem isNumber_concat {pending : List Digit} {d : Digit}
    (h : ∀ e ∈ pending, e.continues = true) (hd : d.continues = false) :
    IsNumber (pending ++ [d]) := by
  induction pending with
  | nil => exact hd
  | cons e pending ih =>
    have hrest := ih fun x hx ↦ h x (List.mem_cons_of_mem e hx)
    exact hrest.cons (h e List.mem_cons_self)

namespace Scanned

variable {octets : List UInt8} {numbers : List (List Digit)} {pending : List Digit}

theorem nil : Scanned [] [] [] :=
  ⟨rfl, by simp, by simp, by simp⟩

/-- One digit more either goes on with the number that is not complete, or completes it. -/
theorem exists_concat (h : Scanned octets numbers pending) (hroom : pending.length < 12)
    (d : Digit) : ∃ numbers pending, Scanned (octets ++ [d.octet]) numbers pending := by
  have hoctets : octets ++ [d.octet] = (numbers.flatten ++ (pending ++ [d])).map Digit.octet := by
    rw [← List.append_assoc, List.map_append, ← h.octets_eq]
    rfl
  have hlength : (pending ++ [d]).length ≤ 12 := by
    rw [List.length_append, List.length_singleton]
    omega
  cases hd : d.continues with
  | true =>
    refine ⟨numbers, pending ++ [d], hoctets, h.complete, ?_, hlength⟩
    exact List.forall_mem_append.2 ⟨h.continues, List.forall_mem_singleton.2 hd⟩
  | false =>
    refine ⟨numbers ++ [pending ++ [d]], [], ?_, ?_, by simp, by simp⟩
    · rw [hoctets, List.flatten_append, List.flatten_singleton, List.append_nil]
    · refine List.forall_mem_append.2 ⟨h.complete, List.forall_mem_singleton.2 ⟨?_, hlength⟩⟩
      exact isNumber_concat h.continues hd

end Scanned

/-- Octets are scanned to their end, or up to a first one that is no digit or is the thirteenth of
its number. -/
theorem exists_scanned (octets : List UInt8) :
    (∃ numbers pending, Scanned octets numbers pending) ∨
      ∃ before b after numbers pending, octets = before ++ b :: after ∧
        Scanned before numbers pending ∧
        ((∀ d : Digit, d.octet ≠ b) ∨ ∃ d : Digit, d.octet = b ∧ pending.length = 12) := by
  induction octets using List.reverseRecOn with
  | nil => exact .inl ⟨[], [], .nil⟩
  | append_singleton front b ih =>
    rcases ih with ⟨numbers, pending, h⟩ | ⟨before, a, after, numbers, pending, rfl, h, hstop⟩
    · by_cases hdigit : ∀ d : Digit, d.octet ≠ b
      · exact .inr ⟨front, b, [], numbers, pending, rfl, h, .inl hdigit⟩
      · push Not at hdigit
        obtain ⟨d, rfl⟩ := hdigit
        rcases Nat.lt_or_eq_of_le h.length_le with hroom | hfull
        · exact .inl (h.exists_concat hroom d)
        · exact .inr ⟨front, d.octet, [], numbers, pending, rfl, h, .inr ⟨d, rfl, hfull⟩⟩
    · refine .inr ⟨before, a, after ++ [b], numbers, pending, ?_, h, hstop⟩
      rw [List.append_assoc, List.cons_append]

/-! ### Reading what was scanned -/

/-- Digits that others follow are gathered. -/
theorem decodeFrom_pending (text : String) {ds : List Digit}
    (hds : ∀ d ∈ ds, d.continues = true) (word : Nat) {digits : Nat}
    (hdigits : digits + ds.length ≤ maxDigits) (cs : List Char) :
    decodeFrom text (Int64.ofNat word) (Int64.ofNat (32 ^ digits)) digits
        (ds.map Digit.toChar ++ cs) =
      decodeFrom text (Int64.ofNat (word + 32 ^ digits * wordOf ds))
        (Int64.ofNat (32 ^ (digits + ds.length))) (digits + ds.length) cs := by
  induction ds generalizing word digits with
  | nil => rfl
  | cons d ds ih =>
    rw [List.length_cons] at hdigits
    have hroom : digits ≠ maxDigits := by omega
    have hword : Int64.ofNat word + Int64.ofNat d.payload * Int64.ofNat (32 ^ digits) =
        Int64.ofNat (word + 32 ^ digits * d.payload) := by
      rw [Int64.ofNat_add, Int64.ofNat_mul, Int64.mul_comm]
    have hsum : word + 32 ^ digits * d.payload + 32 ^ (digits + 1) * wordOf ds =
        word + 32 ^ digits * wordOf (d :: ds) := by
      rw [wordOf]
      ring
    have hplace : digits + 1 + ds.length = digits + (d :: ds).length := by
      rw [List.length_cons]
      omega
    rw [List.map_cons, List.cons_append, decodeFrom_cons, Digit.ofChar?_toChar]
    simp only [hroom, if_false, hword]
    rw [if_pos (hds d List.mem_cons_self), ofNat_pow_succ,
      ih (fun e he ↦ hds e (List.mem_cons_of_mem d he)) _ (by omega), hsum, hplace]

/-- Complete numbers are read, and reading starts anew behind them. -/
theorem decodeFrom_numbers (text : String) {numbers : List (List Digit)}
    (h : ∀ n ∈ numbers, IsNumber n ∧ n.length ≤ maxDigits) (cs : List Char) :
    decodeFrom text 0 1 0 (numbers.flatten.map Digit.toChar ++ cs) =
      (decodeFrom text 0 1 0 cs).map (numbers.map valueOf ++ ·) := by
  induction numbers with
  | nil =>
    show decodeFrom text 0 1 0 cs = _
    cases decodeFrom text 0 1 0 cs <;> rfl
  | cons n numbers ih =>
    obtain ⟨hnumber, hlength⟩ := h n List.mem_cons_self
    have hroom : 0 + n.length ≤ maxDigits := by rwa [Nat.zero_add]
    have hfirst := decodeFrom_number text hnumber 0 hroom (numbers.flatten.map Digit.toChar ++ cs)
    rw [Nat.pow_zero, Nat.one_mul, Nat.zero_add] at hfirst
    rw [List.flatten_cons, List.map_append, List.append_assoc]
    refine hfirst.trans ?_
    rw [ih fun m hm ↦ h m (List.mem_cons_of_mem n hm)]
    cases decodeFrom text 0 1 0 cs <;> rfl

/-- Reading what was scanned gives the values of the complete numbers, and stands in the middle of
the last. -/
theorem decodeFrom_scanned (text : String) {octets : List UInt8} {numbers : List (List Digit)}
    {pending : List Digit} (h : Scanned octets numbers pending) (cs : List Char) :
    decodeFrom text 0 1 0 ((numbers.flatten ++ pending).map Digit.toChar ++ cs) =
      (decodeFrom text (Int64.ofNat (wordOf pending)) (Int64.ofNat (32 ^ pending.length))
        pending.length cs).map (numbers.map valueOf ++ ·) := by
  have hroom : 0 + pending.length ≤ maxDigits := by
    rw [Nat.zero_add]
    exact h.length_le
  have hpending := decodeFrom_pending text h.continues 0 hroom cs
  rw [Nat.pow_zero, Nat.one_mul, Nat.zero_add, Nat.zero_add] at hpending
  rw [List.map_append, List.append_assoc, decodeFrom_numbers text h.complete]
  exact congrArg (Except.map _) hpending

section Endings

variable {text : String} {numbers : List (List Digit)} {pending : List Digit}

/-- The characters of a text are those of the digits that were scanned, and others. -/
theorem exists_toList_of_scanned {before rest : List UInt8}
    (hoctets : octetsOf text = before ++ rest) (h : Scanned before numbers pending) :
    ∃ cs, text.toList = (numbers.flatten ++ pending).map Digit.toChar ++ cs ∧
      octetsOfChars cs = rest := by
  refine exists_chars_of_octets ?_
  rw [← h.octets_eq, ← hoctets, ← Json.octetsOf_ofList, String.ofList_toList]

/-- A text that was scanned to its end is read if no number is left, and is truncated otherwise. -/
theorem decode_of_scanned (h : Scanned (octetsOf text) numbers pending) :
    decode text =
      if pending = [] then .ok (numbers.map valueOf) else .error (.truncated text) := by
  obtain ⟨cs, htext, hcs⟩ := exists_toList_of_scanned (List.append_nil _).symm h
  have hnil : cs = [] := by
    rcases cs with - | ⟨c, cs⟩
    · rfl
    · obtain ⟨rest, hrest⟩ := exists_encodeChar_eq_cons c
      rw [octetsOfChars_cons, hrest] at hcs
      cases hcs
  rw [decode_eq_decodeFrom, htext, hnil, decodeFrom_scanned text h, decodeFrom_nil]
  rcases pending with - | ⟨d, pending⟩
  · exact congrArg Except.ok (List.append_nil _)
  · rfl

/-- An octet that is no digit is reported, wherever in a number it stands. -/
theorem decode_of_no_digit {before after : List UInt8} {b : UInt8}
    (hoctets : octetsOf text = before ++ b :: after) (h : Scanned before numbers pending)
    (hb : ∀ d : Digit, d.octet ≠ b) : decode text = .error (.invalidOctet b) := by
  obtain ⟨cs, htext, hcs⟩ := exists_toList_of_scanned hoctets h
  rcases cs with - | ⟨c, cs⟩
  · cases hcs
  · obtain ⟨rest, hrest⟩ := exists_encodeChar_eq_cons c
    rw [octetsOfChars_cons, hrest] at hcs
    obtain rfl : leadOctet c = b := (List.cons.inj hcs).1
    rw [decode_eq_decodeFrom, htext, decodeFrom_scanned text h, decodeFrom_cons,
      ofChar?_eq_none_iff.2 hb]
    rfl

/-- The thirteenth digit of a number is refused. -/
theorem decode_of_thirteenth {before after : List UInt8} {d : Digit}
    (hoctets : octetsOf text = before ++ d.octet :: after) (h : Scanned before numbers pending)
    (hfull : pending.length = 12) : decode text = .error (.tooLong text) := by
  obtain ⟨cs, htext, hcs⟩ := exists_toList_of_scanned hoctets h
  have hfirst : octetsOfChars cs = [d].map Digit.octet ++ after := hcs
  obtain ⟨cs', rfl, -⟩ := exists_chars_of_octets hfirst
  rw [decode_eq_decodeFrom, htext, decodeFrom_scanned text h, List.map_singleton,
    List.singleton_append, decodeFrom_cons, Digit.ofChar?_toChar]
  simp only [hfull]
  rfl

end Endings

/-! ### How a reading ends -/

/-- How the reading of a text ends, by its octets. -/
inductive Ending (text : String) : Except Error (List Int64) → Prop
  /-- The octets are digits that part into numbers, and the quantities are what these stand for. -/
  | read {numbers : List (List Digit)} {values : List Int64}
      (h : Scanned (octetsOf text) numbers [])
      (hvalues : values.map Int64.toInt = numbers.map (integerOf ∘ weightedSum)) :
      Ending text (.ok values)
  /-- The first octet that rules the text out is no digit. It may stand where a number has twelve
  digits already. -/
  | noDigit {before after : List UInt8} {b : UInt8} {numbers : List (List Digit)}
      {pending : List Digit} (hoctets : octetsOf text = before ++ b :: after)
      (h : Scanned before numbers pending) (hb : ∀ d : Digit, d.octet ≠ b) :
      Ending text (.error (.invalidOctet b))
  /-- The first octet that rules the text out is the thirteenth digit of a number. -/
  | thirteenth {before after : List UInt8} {d : Digit} {numbers : List (List Digit)}
      {pending : List Digit} (hoctets : octetsOf text = before ++ d.octet :: after)
      (h : Scanned before numbers pending) (hfull : pending.length = 12) :
      Ending text (.error (.tooLong text))
  /-- No octet rules the text out, but it ends inside a number. -/
  | inside {numbers : List (List Digit)} {pending : List Digit}
      (h : Scanned (octetsOf text) numbers pending) (hpending : pending ≠ []) :
      Ending text (.error (.truncated text))

section Ending

variable {text : String} {result : Except Error (List Int64)}

theorem Ending.decode_eq (h : Ending text result) : decode text = result := by
  cases h with
  | @read numbers values h hvalues =>
    have hnumbers := map_toInt_valueOf fun n hn ↦ (h.complete n hn).2
    have hsame : numbers.map valueOf = values :=
      List.map_injective_iff.2 (fun _ _ ↦ Int64.toInt_inj.1) (hnumbers.trans hvalues.symm)
    rw [decode_of_scanned h, if_pos rfl, hsame]
  | noDigit hoctets h hb => exact decode_of_no_digit hoctets h hb
  | thirteenth hoctets h hfull => exact decode_of_thirteenth hoctets h hfull
  | inside h hpending => rw [decode_of_scanned h, if_neg hpending]

theorem exists_ending (text : String) : ∃ result, Ending text result := by
  rcases exists_scanned (octetsOf text) with
    ⟨numbers, pending, h⟩ | ⟨before, b, after, numbers, pending, hoctets, h, hb | ⟨d, rfl, hfull⟩⟩
  · rcases pending with - | ⟨d, pending⟩
    · exact ⟨_, .read h (map_toInt_valueOf fun n hn ↦ (h.complete n hn).2)⟩
    · exact ⟨_, .inside h (List.cons_ne_nil d pending)⟩
  · exact ⟨_, .noDigit hoctets h hb⟩
  · exact ⟨_, .thirteenth hoctets h hfull⟩

/-- A text is read exactly if its octets are digits that part into numbers of at most twelve, and
its quantities are the integers that these stand for. Any other text is refused for the first octet
that rules it out, or for ending inside a number. -/
theorem decode_eq_iff_ending : decode text = result ↔ Ending text result := by
  refine ⟨?_, Ending.decode_eq⟩
  rintro rfl
  obtain ⟨result, h⟩ := exists_ending text
  rw [h.decode_eq]
  exact h

end Ending

/-- Behind twelve digits of a number, an octet that is no digit is still reported as that. -/
example : decode "Agggggggggggg!" = .error (.invalidOctet 33) := by
  decide

end SourceChain.Vlq
