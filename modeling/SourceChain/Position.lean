import SourceChain.Text.Blank
import SourceChain.Text.Decimal

/-!
# Positions in a text buffer

A position is a line and a column. Lines count from one and columns from zero, and positions are
ordered by line first, which is the order a map keeps its segments in.

The type itself admits line zero: a position assembled from its two numbers is taken as it is. The
checked ways in are `Position.oneBased`, `Position.ofZeroBased` and `Position.parse`.
-/

namespace SourceChain

/-- A line, counted from one, and a column, counted from zero. -/
structure Position where
  /-- The line, counted from one. -/
  line : UInt32
  /-- The column, counted from zero. -/
  column : UInt32
deriving DecidableEq, Repr

namespace Position

/-- Why a position was refused. -/
inductive Error where
  /-- The line is zero, but lines count from one. -/
  | zeroLine
  /-- The line needs more than 32 bits. -/
  | lineOutOfRange (line : Nat)
  /-- The text does not read as `line:column`. -/
  | malformed (text : String)
deriving DecidableEq, Repr

/-- The wording of a refusal. -/
def Error.message : Error → String
  | zeroLine => "invalid position: line must be at least 1, got 0"
  | lineOutOfRange line => s!"invalid position: line {line} is out of range"
  | malformed text => s!"invalid position '{text}': expected line:column"

/-! ### Order -/

/-- Positions are ordered by line, and on one line by column. -/
instance : LT Position where
  lt a b := a.line < b.line ∨ a.line = b.line ∧ a.column < b.column

/-- Positions are ordered by line, and on one line by column. -/
instance : LE Position where
  le a b := a.line < b.line ∨ a.line = b.line ∧ a.column ≤ b.column

instance (a b : Position) : Decidable (a < b) :=
  inferInstanceAs (Decidable (a.line < b.line ∨ a.line = b.line ∧ a.column < b.column))

instance (a b : Position) : Decidable (a ≤ b) :=
  inferInstanceAs (Decidable (a.line < b.line ∨ a.line = b.line ∧ a.column ≤ b.column))

theorem lt_iff {a b : Position} :
    a < b ↔ a.line < b.line ∨ a.line = b.line ∧ a.column < b.column :=
  Iff.rfl

theorem le_iff {a b : Position} :
    a ≤ b ↔ a.line < b.line ∨ a.line = b.line ∧ a.column ≤ b.column :=
  Iff.rfl

theorem line_le_of_le {a b : Position} (h : a ≤ b) : a.line ≤ b.line := by
  rw [UInt32.le_iff_toNat_le]
  rcases h with hlt | ⟨hline, -⟩
  · exact Nat.le_of_lt (UInt32.lt_iff_toNat_lt.1 hlt)
  · exact Nat.le_of_eq (congrArg UInt32.toNat hline)

theorem column_le_of_le {a b : Position} (h : a ≤ b) (hline : a.line = b.line) :
    a.column ≤ b.column :=
  (h.resolve_left fun hlt ↦ UInt32.lt_irrefl _ (hline ▸ hlt)).2

theorem le_refl (a : Position) : a ≤ a :=
  Or.inr ⟨rfl, UInt32.le_refl _⟩

theorem le_trans {a b c : Position} (hab : a ≤ b) (hbc : b ≤ c) : a ≤ c := by
  rw [le_iff, UInt32.lt_iff_toNat_lt, UInt32.le_iff_toNat_le, ← UInt32.toNat_inj] at *
  omega

theorem le_antisymm {a b : Position} (hab : a ≤ b) (hba : b ≤ a) : a = b := by
  obtain ⟨line, column⟩ := a
  obtain ⟨line', column'⟩ := b
  rw [le_iff, UInt32.lt_iff_toNat_lt, UInt32.le_iff_toNat_le, ← UInt32.toNat_inj] at *
  rw [mk.injEq, ← UInt32.toNat_inj, ← UInt32.toNat_inj]
  dsimp only at *
  omega

theorem le_total (a b : Position) : a ≤ b ∨ b ≤ a := by
  simp only [le_iff, UInt32.lt_iff_toNat_lt, UInt32.le_iff_toNat_le, ← UInt32.toNat_inj]
  omega

/-- What has a position can be sorted by it: as a test, the order is transitive. -/
theorem decide_le_trans {α : Type} (position : α → Position) (a b c : α)
    (hab : decide (position a ≤ position b) = true)
    (hbc : decide (position b ≤ position c) = true) : decide (position a ≤ position c) = true :=
  decide_eq_true (le_trans (of_decide_eq_true hab) (of_decide_eq_true hbc))

/-- What has a position can be sorted by it: as a test, the order is total. -/
theorem decide_le_total {α : Type} (position : α → Position) (a b : α) :
    (decide (position a ≤ position b) || decide (position b ≤ position a)) = true :=
  Bool.or_eq_true_iff.2 ((le_total _ _).imp decide_eq_true decide_eq_true)

theorem not_lt {a b : Position} : ¬ a < b ↔ b ≤ a := by
  simp only [le_iff, lt_iff, UInt32.lt_iff_toNat_lt, UInt32.le_iff_toNat_le, ← UInt32.toNat_inj]
  omega

/-! ### Checked construction -/

/-- A position on a line counted from one. -/
def oneBased (line column : UInt32) : Except Error Position :=
  if line = 0 then .error .zeroLine else .ok ⟨line, column⟩

theorem oneBased_eq_ok_iff {line column : UInt32} {p : Position} :
    oneBased line column = .ok p ↔ line ≠ 0 ∧ p = ⟨line, column⟩ := by
  unfold oneBased
  split <;> simp_all [eq_comm]

/-- A position on a line counted from zero, as the mappings text counts lines. -/
def ofZeroBased (line column : UInt32) : Except Error Position :=
  if line.toNat + 1 < UInt32.size then .ok ⟨line + 1, column⟩
  else .error (.lineOutOfRange (line.toNat + 1))

theorem ofZeroBased_eq_ok_iff {line column : UInt32} {p : Position} :
    ofZeroBased line column = .ok p ↔
      line.toNat + 1 < UInt32.size ∧ p = ⟨line + 1, column⟩ := by
  unfold ofZeroBased
  split
  next h => simp [h, eq_comm]
  next h => simp [h]

/-- The line counted from zero; line zero stays where it is. -/
def zeroBasedLine (p : Position) : UInt32 :=
  if p.line = 0 then 0 else p.line - 1

/-! ### Text form -/

/-- The text form `line:column`. -/
protected def toString (p : Position) : String :=
  s!"{p.line}:{p.column}"

instance : ToString Position := ⟨Position.toString⟩

/-- The two numbers of a text `line:column`, split at the first colon, each with blanks around it
allowed. -/
def numbers? (cs : List Char) : Option (UInt32 × UInt32) :=
  match cs.dropWhile (· ≠ ':') with
  | [] => none
  | _ :: after =>
    match Text.word32? (Text.trim (cs.takeWhile (· ≠ ':'))), Text.word32? (Text.trim after) with
    | some line, some column => some (line, column)
    | _, _ => none

/-- Reads a text `line:column`. Both numbers are read before line zero is refused. -/
def parse (text : String) : Except Error Position :=
  match numbers? text.toList with
  | some (line, column) => oneBased line column
  | none => .error (.malformed text)

end Position

end SourceChain
