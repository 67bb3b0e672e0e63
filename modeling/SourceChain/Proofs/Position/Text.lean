import SourceChain.Position
import SourceChain.Proofs.Text.Decimal

/-!
# The text form of positions

A text spells a line and a column if it is cut at its first colon into two numerals, each with
blanks around it allowed (`Position.Spells`). The numbers are any natural numbers here. A position is
read exactly from the texts that spell its two numbers, if lines count from one there; line zero is
refused as such, and a text that spells no two words of 32 bits is refused as a whole.

The numbers are read before the line is looked at. So line zero is only named as the fault of a text
in which nothing else is wrong.

What is written for a position spells it, so every position with a line reads back. Texts do not come
back from what was read: a sign, blanks and leading zeros are gone.
-/

namespace SourceChain.Position

open Text (IsPadded IsUnsigned IsNumeral isNumeral_toDigits word32?_trim_eq_some_iff)

/-- Which line and column a text spells. -/
inductive Spells (text : String) (line column : Nat) : Prop
  /-- The line stands before the first colon, and the column behind it. -/
  | intro {before after : List Char} (hcut : text.toList = before ++ ':' :: after)
      (hfirst : ':' ∉ before) (hline : IsPadded before line) (hcolumn : IsPadded after column)

theorem one_le_toNat_iff {line : UInt32} : 1 ≤ line.toNat ↔ line ≠ 0 := by
  rw [Nat.one_le_iff_ne_zero, ne_eq, ne_eq, ← UInt32.toNat_inj]
  rfl

section Reading

variable {text : String} {cs : List Char} {line column : UInt32}

/-- Without a colon there are no two numbers. -/
theorem numbers?_of_not_mem (h : ':' ∉ cs) : numbers? cs = none := by
  have hnone : cs.dropWhile (· ≠ ':') = [] := by
    refine List.dropWhile_eq_nil_iff.2 fun c hc ↦ decide_eq_true ?_
    rintro rfl
    exact h hc
  rw [numbers?, hnone]

/-- The numbers are those of the two sides of the first colon. -/
theorem numbers?_append_colon {before after : List Char} (h : ':' ∉ before) :
    numbers? (before ++ ':' :: after) = some (line, column) ↔
      IsPadded before line.toNat ∧ IsPadded after column.toNat := by
  have hbefore : ∀ c ∈ before, decide (c ≠ ':') = true := by
    rintro c hc
    refine decide_eq_true ?_
    rintro rfl
    exact h hc
  have hdrop : (before ++ ':' :: after).dropWhile (· ≠ ':') = ':' :: after :=
    List.dropWhile_append_of_pos hbefore
  have htake : (before ++ ':' :: after).takeWhile (· ≠ ':') = before := by
    rw [List.takeWhile_append_of_pos hbefore]
    exact List.append_nil before
  rw [numbers?, hdrop, htake, ← word32?_trim_eq_some_iff, ← word32?_trim_eq_some_iff]
  dsimp only
  rcases Text.word32? (Text.trim before) with - | l <;>
    rcases Text.word32? (Text.trim after) with - | c <;> simp

/-- Two words are read exactly from the texts that spell their numbers. -/
theorem numbers?_eq_some_iff :
    numbers? text.toList = some (line, column) ↔ Spells text line.toNat column.toNat := by
  constructor
  · intro h
    by_cases hcolon : ':' ∈ text.toList
    · obtain ⟨before, after, hcut, hfirst⟩ := List.eq_append_cons_of_mem hcolon
      rw [hcut, numbers?_append_colon hfirst] at h
      exact .intro hcut hfirst h.1 h.2
    · rw [numbers?_of_not_mem hcolon] at h
      cases h
  · rintro ⟨hcut, hfirst, hline, hcolumn⟩
    rw [hcut, numbers?_append_colon hfirst]
    exact ⟨hline, hcolumn⟩

theorem parse_of_spells (h : Spells text line.toNat column.toNat) :
    parse text = oneBased line column := by
  rw [parse, numbers?_eq_some_iff.2 h]

theorem parse_of_not_spells
    (h : ¬ ∃ line column : UInt32, Spells text line.toNat column.toNat) :
    parse text = .error (.malformed text) := by
  have hnone : numbers? text.toList = none := by
    rcases hnumbers : numbers? text.toList with - | ⟨line, column⟩
    · rfl
    · exact absurd ⟨line, column, numbers?_eq_some_iff.1 hnumbers⟩ h
  rw [parse, hnone]

/-- A text is read as a position exactly if it spells the position and lines count from one. -/
theorem parse_eq_ok_iff {p : Position} :
    parse text = .ok p ↔ Spells text p.line.toNat p.column.toNat ∧ 1 ≤ p.line.toNat := by
  constructor
  · intro h
    by_cases hspells : ∃ line column : UInt32, Spells text line.toNat column.toNat
    · obtain ⟨line, column, hspells⟩ := hspells
      rw [parse_of_spells hspells] at h
      obtain ⟨hline, rfl⟩ := oneBased_eq_ok_iff.1 h
      exact ⟨hspells, one_le_toNat_iff.2 hline⟩
    · rw [parse_of_not_spells hspells] at h
      cases h
  · rintro ⟨hspells, hline⟩
    rw [parse_of_spells hspells]
    exact oneBased_eq_ok_iff.2 ⟨one_le_toNat_iff.1 hline, rfl⟩

/-- Of a text that spells two words only line zero is refused, and any other text is refused as a
whole. -/
theorem parse_eq_error_iff {e : Error} :
    parse text = .error e ↔
      (e = .zeroLine ∧ ∃ column : UInt32, Spells text 0 column.toNat) ∨
      (e = .malformed text ∧
        ¬ ∃ line column : UInt32, Spells text line.toNat column.toNat) := by
  constructor
  · intro h
    by_cases hspells : ∃ line column : UInt32, Spells text line.toNat column.toNat
    · obtain ⟨line, column, hspells⟩ := hspells
      rw [parse_of_spells hspells, oneBased] at h
      split at h
      next hzero =>
        subst hzero
        exact .inl ⟨(Except.error.inj h).symm, column, hspells⟩
      next => cases h
    · rw [parse_of_not_spells hspells] at h
      exact .inr ⟨(Except.error.inj h).symm, hspells⟩
  · rintro (⟨rfl, column, hspells⟩ | ⟨rfl, hspells⟩)
    · have hzero : Spells text (0 : UInt32).toNat column.toNat := hspells
      exact parse_of_spells hzero
    · exact parse_of_not_spells hspells

end Reading

/-! ### Writing -/

/-- A position spells its line and its column. -/
theorem spells_toString (p : Position) : Spells (toString p) p.line.toNat p.column.toNat := by
  have hpadded : ∀ n, IsPadded (Nat.toDigits 10 n) n :=
    fun n ↦ (IsUnsigned.plain (isNumeral_toDigits n)).isPadded
  have hword : ∀ w : UInt32, (toString w).toList = Nat.toDigits 10 w.toNat :=
    fun w ↦ String.toList_ofList
  have hcut : (toString p).toList =
      Nat.toDigits 10 p.line.toNat ++ ':' :: Nat.toDigits 10 p.column.toNat := by
    show (toString p.line ++ ":" ++ toString p.column).toList = _
    rw [String.toList_append, String.toList_append, hword, hword, List.append_assoc]
    rfl
  exact .intro hcut (hpadded _).not_mem_colon (hpadded _) (hpadded _)

/-- What is written for a position reads back, but for line zero. -/
theorem parse_toString {p : Position} (h : 1 ≤ p.line.toNat) : parse (toString p) = .ok p :=
  parse_eq_ok_iff.2 ⟨spells_toString p, h⟩

/-! ### Outcomes -/

/-- A text is read as a position exactly if it spells one on a line counted from one. It is refused
for its line exactly if it spells line zero, and as a whole exactly if it spells no two words. What
is written for a position on such a line reads back, and so does what is written for a position that
was read. -/
theorem parse_determined_by_spelling (text : String) :
    (∀ p : Position, parse text = .ok p ↔
      Spells text p.line.toNat p.column.toNat ∧ 1 ≤ p.line.toNat) ∧
    (∀ e, parse text = .error e ↔
      (e = .zeroLine ∧ ∃ column : UInt32, Spells text 0 column.toNat) ∨
      (e = .malformed text ∧
        ¬ ∃ line column : UInt32, Spells text line.toNat column.toNat)) ∧
    (∀ p : Position, 1 ≤ p.line.toNat → parse (toString p) = .ok p) ∧
    ∀ p : Position, parse text = .ok p → parse (toString p) = parse text := by
  refine ⟨fun p ↦ parse_eq_ok_iff, fun e ↦ parse_eq_error_iff, fun p ↦ parse_toString,
    fun p h ↦ ?_⟩
  rw [h]
  exact parse_toString (parse_eq_ok_iff.1 h).2

/-- A sign, leading zeros and a wide blank are read over, and what is written is without them. -/
theorem parse_samplePadded :
    parse "\u2003+0028\t: 4294967295" = .ok ⟨28, 4294967295⟩ ∧
      1 ≤ (28 : UInt32).toNat ∧
      toString (⟨28, 4294967295⟩ : Position) = "28:4294967295" ∧
      parse "28:4294967295" = .ok ⟨28, 4294967295⟩ ∧
      parse "28:4294967295" = parse "\u2003+0028\t: 4294967295" := by
  have hread : parse "\u2003+0028\t: 4294967295" = .ok ⟨28, 4294967295⟩ := by cbv
  have hwritten : toString (⟨28, 4294967295⟩ : Position) = "28:4294967295" := by decide
  obtain ⟨hok, -, hback, hagain⟩ := parse_determined_by_spelling "\u2003+0028\t: 4294967295"
  have hline : 1 ≤ (28 : UInt32).toNat := ((hok _).1 hread).2
  exact ⟨hread, hline, hwritten, hwritten ▸ hback _ hline, hwritten ▸ hagain _ hread⟩

end SourceChain.Position
