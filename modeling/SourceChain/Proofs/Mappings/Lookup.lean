import Mathlib.Data.List.TakeWhile
import SourceChain.Mappings.Basic

/-!
# Lookup as a scan

`covering?` finds the segment that covers a position by going through the whole list: the last
segment, in the order of the list, on the line of the position and not past its column. Sorted
segments are looked up through a table of line ends instead, and `find?_ofSorted` says that the two
agree on every line that a position may have.

Everything rests on one fact about sorted lists: a property that passes to everything before it
holds of a prefix, so cutting the list off where it first fails is filtering by it
(`takeWhile_eq_filter`).

Line zero is left out. The table has an entry for it, but a lookup there finds nothing, whatever
segments lie on it.
-/

namespace SourceChain.Mappings

/-! ### Cutting sorted lists -/

section Cut

variable {α : Type} {p : α → Bool} {l : List α}

/-- A property that passes to everything before it holds of a prefix. -/
theorem takeWhile_eq_filter (h : l.Pairwise fun a b ↦ p b → p a) :
    l.takeWhile p = l.filter p := by
  induction l with
  | nil => rfl
  | cons a l ih =>
    obtain ⟨ha, hl⟩ := List.pairwise_cons.1 h
    by_cases hp : p a
    · rw [List.takeWhile_cons_of_pos hp, List.filter_cons_of_pos hp, ih hl]
    · rw [List.takeWhile_cons_of_neg hp, List.filter_cons_of_neg hp]
      exact (List.filter_eq_nil_iff.2 fun b hb hpb ↦ hp (ha b hb hpb)).symm

theorem dropWhile_eq_filter_not (h : l.Pairwise fun a b ↦ p b → p a) :
    l.dropWhile p = l.filter fun a ↦ !p a := by
  induction l with
  | nil => rfl
  | cons a l ih =>
    obtain ⟨ha, hl⟩ := List.pairwise_cons.1 h
    by_cases hp : p a
    · rw [List.dropWhile_cons_of_pos hp, ih hl, List.filter_cons_of_neg (by simp [hp])]
    · have hall : ∀ b ∈ a :: l, (!p b) = true := by
        intro b hb
        rcases List.mem_cons.1 hb with rfl | hb
        · simpa using hp
        · exact Bool.not_eq_true' _ ▸ Bool.eq_false_iff.2 fun hpb ↦ hp (ha b hb hpb)
      rw [List.dropWhile_cons_of_neg hp, List.filter_eq_self.2 hall]

/-- The prefix that a property holds of is as long as the property holds often. -/
theorem take_countP (h : l.Pairwise fun a b ↦ p b → p a) : l.take (l.countP p) = l.filter p := by
  rw [List.countP_eq_length_filter, ← takeWhile_eq_filter h]
  exact List.prefix_iff_eq_take.1 (List.takeWhile_prefix p) |>.symm

theorem drop_countP (h : l.Pairwise fun a b ↦ p b → p a) :
    l.drop (l.countP p) = l.filter fun a ↦ !p a := by
  refine List.append_cancel_left (?_ : l.take (l.countP p) ++ _ = l.take (l.countP p) ++ _)
  rw [List.take_append_drop, take_countP h, ← takeWhile_eq_filter h, ← dropWhile_eq_filter_not h,
    List.takeWhile_append_dropWhile]

end Cut

/-! ### Sorted segments -/

/-- Segments that never go backwards in generated position. -/
abbrev Sorted (segments : List Segment) : Prop :=
  segments.Pairwise fun a b ↦ a.generated ≤ b.generated

section Segments

variable {segments : List Segment}

/-- On sorted segments, lying on a line up to a given one passes to everything before. -/
theorem Sorted.line_le (h : Sorted segments) (n : Nat) :
    segments.Pairwise fun a b ↦
      decide (b.generated.line.toNat ≤ n) → decide (a.generated.line.toNat ≤ n) := by
  refine h.imp fun {a b} hab hb ↦ decide_eq_true ?_
  exact Nat.le_trans (UInt32.le_iff_toNat_le.1 (Position.line_le_of_le hab)) (of_decide_eq_true hb)

/-- The last segment of sorted ones lies on the highest line. -/
theorem Sorted.line_le_lastLineOf (h : Sorted segments) {s : Segment} (hs : s ∈ segments) :
    s.generated.line.toNat ≤ (lastLineOf segments).toNat := by
  rcases List.eq_nil_or_concat segments with rfl | ⟨before, last, rfl⟩
  · exact absurd hs List.not_mem_nil
  · have hlast : lastLineOf (before.concat last) = last.generated.line := by simp [lastLineOf]
    rw [hlast]
    rw [List.concat_eq_append] at hs h
    rcases List.mem_append.1 hs with hs | hs
    · have hle := (List.pairwise_append.1 h).2.2 s hs last List.mem_cons_self
      exact UInt32.le_iff_toNat_le.1 (Position.line_le_of_le hle)
    · obtain rfl := List.mem_singleton.1 hs
      exact Nat.le_refl _

/-! ### The line table -/

/-- From line `line` on, each entry counts the segments on the lines up to its own. -/
theorem toList_offsetsFrom (offsets : Array Nat) (passed : Nat) {rest : List Segment}
    (h : Sorted rest) (line count : Nat) :
    (offsetsFrom offsets passed rest line count).toList =
      offsets.toList ++ (List.range' line count).map fun n ↦
        passed + rest.countP (·.generated.line.toNat ≤ n) := by
  induction count generalizing offsets passed rest line with
  | zero => simp [offsetsFrom]
  | succ count ih =>
    set here := rest.takeWhile fun s ↦ decide (s.generated.line.toNat ≤ line) with hhere
    set later := rest.dropWhile fun s ↦ decide (s.generated.line.toNat ≤ line) with hlater
    have hsplit : here ++ later = rest := List.takeWhile_append_dropWhile
    have hlater_sorted : Sorted later := h.sublist (List.dropWhile_sublist _)
    have hlength : here.length = rest.countP (·.generated.line.toNat ≤ line) := by
      rw [hhere, takeWhile_eq_filter (h.line_le line), List.countP_eq_length_filter]
    -- past the current line, the segments cut off count in full
    have hcount : ∀ n ∈ List.range' (line + 1) count,
        passed + here.length + later.countP (·.generated.line.toNat ≤ n) =
          passed + rest.countP (·.generated.line.toNat ≤ n) := by
      intro n hn
      have hline : line < n := (List.mem_range'_1.1 hn).1
      have hall : here.countP (·.generated.line.toNat ≤ n) = here.length := by
        refine List.countP_eq_length.2 fun s hs ↦ ?_
        have hs : s.generated.line.toNat ≤ line := by simpa using List.mem_takeWhile_imp hs
        simpa using Nat.le_trans hs (Nat.le_of_lt hline)
      rw [← hsplit, List.countP_append, hall, Nat.add_assoc]
    rw [offsetsFrom, ih _ _ hlater_sorted, Array.toList_push, List.range'_succ, List.map_cons,
      List.map_congr_left hcount, hlength, List.append_assoc, List.singleton_append]

/-- The entry of a line counts the segments on the lines up to it. -/
theorem toList_lineOffsets_ofSorted (h : Sorted segments) :
    (ofSorted segments).lineOffsets.toList =
      (List.range ((lastLineOf segments).toNat + 1)).map fun n ↦
        segments.countP (·.generated.line.toNat ≤ n) := by
  rw [ofSorted, toList_offsetsFrom _ _ h, List.range_eq_range']
  simp

theorem getElem_lineOffsets_ofSorted (h : Sorted segments) {n : Nat}
    (hn : n < (ofSorted segments).lineOffsets.size) :
    (ofSorted segments).lineOffsets[n] = segments.countP (·.generated.line.toNat ≤ n) := by
  have hn' : n < (lastLineOf segments).toNat + 1 := size_lineOffsets_ofSorted segments ▸ hn
  rw [← Array.getElem_toList]
  simp only [toList_lineOffsets_ofSorted h, List.getElem_map, List.getElem_range]

/-! ### Lines and lookups -/

/-- A line is the slice of the segments that lie on it. -/
theorem line_ofSorted (h : Sorted segments) {n : UInt32} (hn : n ≠ 0) :
    (ofSorted segments).line n = segments.filter (·.generated.line = n) := by
  have hpos : 0 < n.toNat := Nat.pos_of_ne_zero fun h0 ↦ hn (UInt32.toNat_inj.1 h0)
  rw [line]
  split
  next hlt =>
    have hbefore : (segments.filter fun s ↦ decide (s.generated.line.toNat ≤ n.toNat)).countP
        (·.generated.line.toNat ≤ n.toNat - 1) =
          segments.countP (·.generated.line.toNat ≤ n.toNat - 1) := by
      rw [List.countP_filter]
      refine List.countP_congr fun s _ ↦ ?_
      simp only [Bool.and_eq_true, decide_eq_true_eq]
      omega
    rw [getElem_lineOffsets_ofSorted h, getElem_lineOffsets_ofSorted h, Array.toList_extract,
      List.extract_eq_drop_take', ofSorted, take_countP (h.line_le _), ← hbefore,
      drop_countP ((h.line_le _).sublist List.filter_sublist), List.filter_filter]
    refine List.filter_congr fun s _ ↦ ?_
    simp only [← decide_not, ← Bool.decide_and, ← UInt32.toNat_inj]
    exact decide_eq_decide.2 (by omega)
  next hlt =>
    refine (List.filter_eq_nil_iff.2 fun s hs hline ↦ hlt ⟨hpos, ?_⟩).symm
    rw [size_lineOffsets_ofSorted, ← of_decide_eq_true hline]
    exact Nat.lt_succ_of_le (h.line_le_lastLineOf hs)

/-- The last segment, in the order of the list, on the line of a position and not past its
column. -/
def covering? (segments : List Segment) (p : Position) : Option Segment :=
  (segments.filter fun s ↦
    s.generated.line = p.line ∧ s.generated.column ≤ p.column).getLast?

theorem covering?_eq_some {p : Position} {s : Segment} (h : covering? segments p = some s) :
    s ∈ segments ∧ s.generated.line = p.line ∧ s.generated.column ≤ p.column := by
  have hs := List.mem_filter.1 (List.mem_of_getLast? h)
  exact ⟨hs.1, of_decide_eq_true hs.2⟩

/-- Sorted segments are looked up as if by a scan. -/
theorem find?_ofSorted (h : Sorted segments) {p : Position} (hp : p.line ≠ 0) :
    (ofSorted segments).find? p = covering? segments p := by
  have hcolumn : (segments.filter (·.generated.line = p.line)).Pairwise fun a b ↦
      decide (b.generated.column ≤ p.column) → decide (a.generated.column ≤ p.column) := by
    refine (List.pairwise_filter.2 (h.imp fun {a b} hab ha hb hle ↦ ?_))
    have hline : a.generated.line = b.generated.line :=
      (of_decide_eq_true ha).trans (of_decide_eq_true hb).symm
    exact decide_eq_true
      (UInt32.le_trans (Position.column_le_of_le hab hline) (of_decide_eq_true hle))
  rw [find?, line_ofSorted h hp, takeWhile_eq_filter hcolumn, List.filter_filter, covering?]
  congr 1
  refine List.filter_congr fun s _ ↦ ?_
  rw [Bool.and_comm, ← Bool.decide_and]

/-- Segments on lines from one on are looked up as if by a scan at every position: on line zero
neither finds any. -/
theorem find?_ofSorted_of_line_ne_zero (h : Sorted segments)
    (hline : ∀ s ∈ segments, s.generated.line ≠ 0) (p : Position) :
    (ofSorted segments).find? p = covering? segments p := by
  by_cases hp : p.line = 0
  · have hnone : covering? segments p = none := by
      refine Option.eq_none_iff_forall_not_mem.2 fun s hs ↦ ?_
      obtain ⟨hmem, heq, -⟩ := covering?_eq_some hs
      exact hline s hmem (heq.trans hp)
    rw [hnone, find?, hp]
    rfl
  · exact find?_ofSorted h hp

end Segments

end SourceChain.Mappings
