import SourceChain.Proofs.Vlq.Grammar

/-!
# The arithmetic of reading quantities

Quantities are read by one reader, whatever it reckons with. Here it reckons with numbers of any
size (`checked`) in place of 64-bit words. Each step of arithmetic must be allowed (`outcome?`), and
the first that is not puts an end to the reading, with neither a result nor an error. What is
allowed is left open. If everything is, this is reading without any bound (`checkedDecode`); if only
what lies in the range of `Step.InRange` is, it tells whether reading keeps to that range.

It does: no step of reading leaves the range, and on such steps words compute what integers do. So
all of these readings agree, whatever the text (`checkedDecode_eq`).
-/

namespace SourceChain

/-! ### Steps that must be allowed -/

section Checked

variable {α β γ δ ε κ : Type}

/-- What a step of arithmetic comes to, if it is allowed. -/
def outcome? (allowed : Prop) [Decidable allowed] (a : α) : Option α :=
  if allowed then some a else none

theorem outcome?_of_allowed {allowed : Prop} [Decidable allowed] (h : allowed) (a : α) :
    outcome? allowed a = some a :=
  if_pos h

/-- A computation that may fail, and that a step which is not allowed puts an end to. -/
abbrev Checked (ε α : Type) : Type :=
  ExceptT ε Option α

namespace Checked

/-- A step of such a computation. -/
def step (allowed : Prop) [Decidable allowed] (a : α) : Checked ε α :=
  ExceptT.lift (outcome? allowed a)

theorem step_of_allowed {allowed : Prop} [Decidable allowed] (h : allowed) (a : α) :
    (step allowed a : Checked ε α) = pure a := by
  rw [step, outcome?_of_allowed h]
  rfl

/-- A computation that nothing puts an end to, with its errors and values in another form. -/
def of (error : ε → δ) (value : α → β) : Except ε α → Checked δ β
  | .ok a => pure (value a)
  | .error e => throw (error e)

theorem adapt_of (error : ε → δ) (wrap : δ → κ) (value : α → β) (x : Except ε α) :
    (of error value x).adapt wrap = of (wrap ∘ error) value x := by
  cases x <;> rfl

/-- Forms that go together in the first part of a computation and in the rest go together in the
whole. -/
theorem bind_eq_of {error : ε → δ} {value : α → β} {value' : γ → κ} {x : Except ε α}
    {y : Checked δ β} {f : α → Except ε γ} {g : β → Checked δ κ} (hy : y = of error value x)
    (h : ∀ a, x = .ok a → g (value a) = of error value' (f a)) :
    y >>= g = of error value' (x >>= f) := by
  subst hy
  cases x with
  | error e => rfl
  | ok a => exact h a rfl

end Checked

end Checked

namespace Vlq

/-! ### Reading with steps that must be allowed -/

/-- A step of arithmetic in reading. -/
inductive Step where
  /-- The payload of a digit is shifted to its place and added to the word. -/
  | digit (word weight payload : Nat)
  /-- The sign is taken off a word. -/
  | sign (word : Nat)
deriving DecidableEq, Repr

/-- Whether everything that a step computes lies in range: words in sixty bits, and values below
half of that. -/
def Step.InRange : Step → Prop
  | digit word weight payload =>
    payload * weight < 2 ^ 60 ∧ word + payload * weight < 2 ^ 60 ∧ weight * 32 ≤ 2 ^ 60
  | sign word => word < 2 ^ 60 ∧ (integerOf word).natAbs < 2 ^ 59

instance : DecidablePred Step.InRange
  | .digit _ _ _ => inferInstanceAs (Decidable (_ ∧ _ ∧ _))
  | .sign _ => inferInstanceAs (Decidable (_ ∧ _))

section Reading

variable (allowed : Step → Prop) [DecidablePred allowed]

/-- The arithmetic of numbers of any size, whose steps must be allowed. -/
def checked : ReadArithmetic (Checked Error) Nat Int where
  add word weight payload := .step (allowed (.digit word weight payload)) (word + payload * weight)
  next weight := weight * 32
  value word := .step (allowed (.sign word)) (integerOf word)
  refuse := throw

/-- The quantities of a text, read with numbers of any size. -/
def checkedDecode (text : String) : Checked Error (List Int) :=
  (checked allowed).read text

end Reading

/-! ### Steps in range -/

theorem natAbs_integerOf_lt {n : Nat} (h : n < 2 ^ 60) : (integerOf n).natAbs < 2 ^ 59 := by
  rw [integerOf]
  split <;> omega

theorem Step.inRange_sign {n : Nat} (h : n < 2 ^ 60) : (Step.sign n).InRange :=
  ⟨h, natAbs_integerOf_lt h⟩

section Digits

variable {word digits : Nat}

/-- One digit more makes a word that has room in one digit more. -/
theorem add_payload_lt (h : word < 32 ^ digits) (d : Digit) :
    word + d.payload * 32 ^ digits < 32 ^ (digits + 1) := by
  have hpayload : d.payload ≤ 31 := Nat.le_of_lt_succ (Nat.mod_lt _ (by decide))
  calc word + d.payload * 32 ^ digits
      < 32 ^ digits + d.payload * 32 ^ digits := Nat.add_lt_add_right h _
    _ = (d.payload + 1) * 32 ^ digits := by ring
    _ ≤ 32 * 32 ^ digits := Nat.mul_le_mul_right _ (Nat.succ_le_succ hpayload)
    _ = 32 ^ (digits + 1) := by ring

/-- Twelve digits are sixty bits. -/
theorem pow_succ_le (h : digits < maxDigits) : 32 ^ (digits + 1) ≤ 2 ^ 60 := by
  calc 32 ^ (digits + 1) ≤ 32 ^ maxDigits := Nat.pow_le_pow_right (by decide) h
    _ = 2 ^ 60 := by decide

theorem Step.inRange_digit (hword : word < 32 ^ digits) (hdigits : digits < maxDigits) (d : Digit) :
    (Step.digit word (32 ^ digits) d.payload).InRange := by
  have hsum := Nat.lt_of_lt_of_le (add_payload_lt hword d) (pow_succ_le hdigits)
  exact ⟨Nat.lt_of_le_of_lt (Nat.le_add_left _ _) hsum, hsum, pow_succ_le hdigits⟩

end Digits

/-! ### Words compute what integers do -/

section Reading

variable {allowed : Step → Prop} [DecidablePred allowed]
  (hallowed : ∀ step : Step, step.InRange → allowed step) (text : String)

include hallowed

/-- In the middle of a number the word is below the weight of the next digit, so every step to come
is in range. -/
theorem readFrom_checked_eq {word digits : Nat} (hword : word < 32 ^ digits)
    (hdigits : digits ≤ maxDigits) (cs : List Char) :
    (checked allowed).readFrom text word (32 ^ digits) digits cs =
      .of id (List.map Int64.toInt)
        (words.readFrom text (Int64.ofNat word) (Int64.ofNat (32 ^ digits)) digits cs) := by
  induction cs generalizing word digits with
  | nil =>
    rw [ReadArithmetic.readFrom, ReadArithmetic.readFrom]
    split <;> rfl
  | cons c cs ih =>
    rw [ReadArithmetic.readFrom, ReadArithmetic.readFrom]
    rcases Digit.ofChar? c with - | d
    · rfl
    dsimp only
    split
    next => rfl
    next hfull =>
      have hroom : digits < maxDigits := Nat.lt_of_le_of_ne hdigits hfull
      have hlt := add_payload_lt hword d
      have hadd : (checked allowed).add word (32 ^ digits) d.payload =
          pure (word + d.payload * 32 ^ digits) :=
        Checked.step_of_allowed (hallowed _ (Step.inRange_digit hword hroom d)) _
      have hsum : words.add (Int64.ofNat word) (Int64.ofNat (32 ^ digits)) d.payload =
          pure (Int64.ofNat (word + d.payload * 32 ^ digits)) := by
        rw [Int64.ofNat_add, Int64.ofNat_mul]
        rfl
      rw [hadd, hsum, pure_bind, pure_bind]
      split
      next =>
        have hnext : words.next (Int64.ofNat (32 ^ digits)) = Int64.ofNat (32 ^ (digits + 1)) :=
          ofNat_pow_succ digits
        rw [hnext]
        exact ih hlt hroom
      next =>
        have hword' := Nat.lt_of_lt_of_le hlt (pow_succ_le hroom)
        have hvalue : (checked allowed).value (word + d.payload * 32 ^ digits) =
            .of id Int64.toInt
              (words.value (Int64.ofNat (word + d.payload * 32 ^ digits))) := by
          show Checked.step _ _ = pure (ofWord _).toInt
          rw [toInt_ofWord hword', Checked.step_of_allowed (hallowed _ (Step.inRange_sign hword'))]
        refine Checked.bind_eq_of hvalue fun value _ ↦ ?_
        -- behind the number reading starts anew
        have hrest : (checked allowed).readFrom text 0 1 0 cs =
            .of id (List.map Int64.toInt) (words.readFrom text 0 1 0 cs) :=
          ih Nat.one_pos (Nat.zero_le _)
        exact Checked.bind_eq_of hrest fun values _ ↦ rfl

/-- Reading takes no step out of range, and its words are the integers that they stand for. -/
theorem checkedDecode_eq :
    checkedDecode allowed text = .of id (List.map Int64.toInt) (decode text) :=
  readFrom_checked_eq hallowed text Nat.one_pos (Nat.zero_le _) text.toList

theorem run_checkedDecode :
    (checkedDecode allowed text).run = some ((decode text).map (List.map Int64.toInt)) := by
  rw [checkedDecode_eq hallowed]
  cases decode text <;> rfl

end Reading

end Vlq

end SourceChain
