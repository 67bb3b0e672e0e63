import SourceChain.Proofs.Mappings.Reading

/-!
# What the line table answers

Mappings keep a table of where each line ends, and answer from it: a line is a slice of the
segments, and a lookup searches that slice alone. `Indexed` says what these answers are without the
table. A line is the segments that lie on it, in order, and a lookup is a scan of all segments. The
table never points past the segments, and a line that is searched is parted by every column, so that
halving the line finds the same place as going through it.

Mappings come about in three ways (`Made`): from segments that were checked to be in order, from a
text, and from a builder. In each of them the segments are in order and the table is the one that
belongs to them (`Made.eq_ofSorted`), and nothing more is asked for (`indexed_ofSorted`). In
particular, segments on line zero do no harm: they are counted by the table, and no answer ever
gives one of them.

Segments are checked to be in order by their neighbours. `firstDescent?_eq_some_iff` says which two
are reported.
-/

namespace SourceChain.Mappings

open SourceMap (Builder)

/-! ### Checking the order -/

section Order

variable {segments : List Segment}

/-- The first two neighbours of which the second lies before the first: up to the first of them, the
segments are in order. -/
theorem firstDescent?_eq_some_iff {a b : Segment} :
    firstDescent? segments = some (a, b) ↔ ∃ before after, segments = before ++ a :: b :: after ∧
      Sorted (before ++ [a]) ∧ b.generated < a.generated := by
  refine ⟨fun h ↦ ?_, ?_⟩
  · fun_induction firstDescent? segments with
    | case1 x y rest hlt =>
      obtain ⟨rfl, rfl⟩ := Prod.mk.inj (Option.some.inj h)
      exact ⟨[], rest, rfl, List.pairwise_singleton _ _, hlt⟩
    | case2 x y rest hle ih =>
      obtain ⟨before, after, hsplit, hsorted, hlt⟩ := ih h
      refine ⟨x :: before, after, by rw [hsplit, List.cons_append], ?_, hlt⟩
      -- the segments up to the first of the two begin with the same neighbours
      rw [Sorted, ← firstDescent?_eq_none_iff] at hsorted ⊢
      rcases before with - | ⟨z, before⟩
      · obtain ⟨rfl, -⟩ := List.cons.inj hsplit
        rw [List.cons_append, List.nil_append, firstDescent?, if_neg hle]
        rfl
      · obtain ⟨rfl, -⟩ := List.cons.inj hsplit
        rw [List.cons_append, List.cons_append, firstDescent?, if_neg hle]
        exact hsorted
    | case3 segments hshort => cases h
  · rintro ⟨before, after, rfl, hsorted, hlt⟩
    induction before with
    | nil => rw [List.nil_append, firstDescent?, if_pos hlt]
    | cons x before ih =>
      have hrest := ih hsorted.of_cons
      rcases before with - | ⟨y, before⟩
      · have hle : x.generated ≤ a.generated :=
          List.rel_of_pairwise_cons hsorted List.mem_cons_self
        rw [List.cons_append, List.nil_append, firstDescent?, if_neg (Position.not_lt.2 hle)]
        exact hrest
      · have hle : x.generated ≤ y.generated :=
          List.rel_of_pairwise_cons hsorted List.mem_cons_self
        rw [List.cons_append, List.cons_append, firstDescent?, if_neg (Position.not_lt.2 hle)]
        exact hrest

/-- Segments that are not in order are refused for the first two neighbours that descend. -/
theorem ofSegments_eq_error_iff {e : Error} :
    ofSegments segments = .error e ↔ ∃ before a b after, segments = before ++ a :: b :: after ∧
      Sorted (before ++ [a]) ∧ b.generated < a.generated ∧
      e = .unordered a.generated b.generated := by
  rw [ofSegments]
  split
  next a b hdescent =>
    obtain ⟨before, after, hsplit, hsorted, hlt⟩ := firstDescent?_eq_some_iff.1 hdescent
    refine ⟨fun h ↦ ⟨before, a, b, after, hsplit, hsorted, hlt, (Except.error.inj h).symm⟩, ?_⟩
    rintro ⟨before', a', b', after', hsplit', hsorted', hlt', rfl⟩
    have hsame := hdescent.symm.trans
      (firstDescent?_eq_some_iff.2 ⟨before', after', hsplit', hsorted', hlt'⟩)
    obtain ⟨rfl, rfl⟩ := Prod.mk.inj (Option.some.inj hsame)
    rfl
  next hnone =>
    refine iff_of_false (by simp) ?_
    rintro ⟨before, a, b, after, hsplit, hsorted, hlt, -⟩
    rw [firstDescent?_eq_some_iff.2 ⟨before, after, hsplit, hsorted, hlt⟩] at hnone
    cases hnone

end Order

/-! ### Lines one after another -/

/-- Elements in order of a key are those with each value of the key in turn. -/
theorem flatMap_filter_range' {α : Type} {key : α → Nat} {l : List α}
    (h : l.Pairwise fun a b ↦ key a ≤ key b) (start count : Nat) :
    ((List.range' start count).flatMap fun k ↦ l.filter (key · = k)) =
      l.filter fun a ↦ start ≤ key a ∧ key a < start + count := by
  induction count with
  | zero =>
    refine (List.filter_eq_nil_iff.2 fun a _ ha ↦ ?_).symm
    have hbounds := of_decide_eq_true ha
    omega
  | succ count ih =>
    set upTo := l.filter fun a ↦ decide (start ≤ key a ∧ key a < start + (count + 1)) with hupTo
    have hordered : upTo.Pairwise fun a b ↦
        decide (key b < start + count) → decide (key a < start + count) := by
      refine (h.sublist List.filter_sublist).imp fun {a b} hab hb ↦ decide_eq_true ?_
      exact Nat.lt_of_le_of_lt hab (of_decide_eq_true hb)
    -- the last value of the key is where the elements before it leave off
    have hbefore : upTo.takeWhile (fun a ↦ decide (key a < start + count)) =
        l.filter fun a ↦ start ≤ key a ∧ key a < start + count := by
      rw [takeWhile_eq_filter hordered, hupTo, List.filter_filter]
      refine List.filter_congr fun a _ ↦ ?_
      rw [← Bool.decide_and, decide_eq_decide]
      omega
    have hlast : upTo.dropWhile (fun a ↦ decide (key a < start + count)) =
        l.filter (key · = start + count) := by
      rw [dropWhile_eq_filter_not hordered, hupTo, List.filter_filter]
      refine List.filter_congr fun a _ ↦ ?_
      rw [← decide_not, ← Bool.decide_and, decide_eq_decide]
      omega
    rw [List.range'_concat, List.flatMap_append, ih, Nat.one_mul, ← hbefore,
      List.flatMap_singleton, ← hlast, List.takeWhile_append_dropWhile]

/-! ### Answers -/

/-- What mappings answer, said of the list of all segments. -/
structure Indexed (m : Mappings) : Prop where
  /-- A line is the segments that lie on it, in order. -/
  line : ∀ n, n ≠ 0 → m.line n = m.toList.filter (·.generated.line = n)
  /-- Nothing is found on line zero. -/
  line_zero : m.line 0 = []
  /-- The lines up to the last, one after another, are all segments on lines from one on. -/
  lines : ((List.range' 1 m.lastLine.toNat).flatMap fun n ↦ m.line (UInt32.ofNat n)) =
    m.toList.filter (·.generated.line ≠ 0)
  /-- A lookup is a scan of all segments. -/
  find? : ∀ p, p.line ≠ 0 → m.find? p = covering? m.toList p
  /-- No lookup on line zero finds anything. -/
  find?_zero : ∀ column, m.find? ⟨0, column⟩ = none
  /-- Where a line ends is not before the line starts, and not past the segments. -/
  slice : ∀ (n : Nat) (h : n < m.lineOffsets.size), 0 < n →
    m.lineOffsets[n - 1] ≤ m.lineOffsets[n] ∧ m.lineOffsets[n] ≤ m.segments.size
  /-- A line is parted by every column: the segments that are not past it go before those that are,
  and a lookup gives the last of them, if there are any. -/
  parted : ∀ p, ∃ k ≤ (m.line p.line).length,
    (∀ s ∈ (m.line p.line).take k, s.generated.column ≤ p.column) ∧
      (∀ s ∈ (m.line p.line).drop k, p.column < s.generated.column) ∧
      m.find? p = if k = 0 then none else (m.line p.line)[k - 1]?

section Segments

variable {segments : List Segment}

theorem line_zero (m : Mappings) : m.line 0 = [] :=
  dif_neg fun h ↦ Nat.lt_irrefl 0 h.1

/-- The segments of a line are in order of column. -/
theorem pairwise_column_line_ofSorted (h : Sorted segments) (n : UInt32) :
    ((ofSorted segments).line n).Pairwise fun a b ↦
      a.generated.column ≤ b.generated.column := by
  by_cases hn : n = 0
  · rw [hn, line_zero]
    exact List.Pairwise.nil
  · rw [line_ofSorted h hn]
    refine List.pairwise_filter.2 (h.imp fun {a b} hab ha hb ↦ ?_)
    exact Position.column_le_of_le hab
      ((of_decide_eq_true ha).trans (of_decide_eq_true hb).symm)

/-- Searching a line for a column finds the segment in front of the cut. -/
theorem exists_parted (h : Sorted segments) (p : Position) :
    ∃ k ≤ ((ofSorted segments).line p.line).length,
      (∀ s ∈ ((ofSorted segments).line p.line).take k, s.generated.column ≤ p.column) ∧
        (∀ s ∈ ((ofSorted segments).line p.line).drop k, p.column < s.generated.column) ∧
        (ofSorted segments).find? p =
          if k = 0 then none else ((ofSorted segments).line p.line)[k - 1]? := by
  set line := (ofSorted segments).line p.line with hline
  have hparted : line.Pairwise fun a b ↦
      decide (b.generated.column ≤ p.column) → decide (a.generated.column ≤ p.column) := by
    refine (pairwise_column_line_ofSorted h p.line).imp fun {a b} hab hb ↦ decide_eq_true ?_
    exact UInt32.le_trans hab (of_decide_eq_true hb)
  have hfind : (ofSorted segments).find? p =
      (line.take (line.countP (·.generated.column ≤ p.column))).getLast? := by
    rw [find?, ← hline, take_countP hparted, takeWhile_eq_filter hparted]
  refine ⟨line.countP (·.generated.column ≤ p.column), List.countP_le_length, fun s hs ↦ ?_,
    fun s hs ↦ ?_, ?_⟩
  · rw [take_countP hparted] at hs
    exact of_decide_eq_true (List.mem_filter.1 hs).2
  · rw [drop_countP hparted] at hs
    have hpast : ¬ s.generated.column ≤ p.column := by simpa using (List.mem_filter.1 hs).2
    exact UInt32.not_le.1 hpast
  · rw [hfind, List.getLast?_take]
    split
    next => rfl
    next hne =>
      have hlt : line.countP (·.generated.column ≤ p.column) - 1 < line.length := by
        have hle : line.countP (·.generated.column ≤ p.column) ≤ line.length :=
          List.countP_le_length
        omega
      rw [List.getElem?_eq_getElem hlt, Option.some_or]

/-- Answers about segments in order are right, whatever lines they lie on. -/
theorem indexed_ofSorted (h : Sorted segments) : (ofSorted segments).Indexed where
  line n hn := line_ofSorted h hn
  line_zero := line_zero _
  lines := by
    have hlines : ∀ n ∈ List.range' 1 (lastLineOf segments).toNat,
        (ofSorted segments).line (UInt32.ofNat n) =
          segments.filter (·.generated.line.toNat = n) := by
      intro n hn
      have hbounds := List.mem_range'_1.1 hn
      have hlt : n < UInt32.size := by
        have hlast := (lastLineOf segments).toNat_lt_size
        omega
      have hnumber : (UInt32.ofNat n).toNat = n := UInt32.toNat_ofNat_of_lt' hlt
      have hne : UInt32.ofNat n ≠ 0 := by
        rw [Ne, ← UInt32.toNat_inj, hnumber]
        exact Nat.ne_of_gt hbounds.1
      rw [line_ofSorted h hne]
      refine List.filter_congr fun s _ ↦ ?_
      rw [decide_eq_decide, ← UInt32.toNat_inj, hnumber]
    have hkey : segments.Pairwise fun a b ↦ a.generated.line.toNat ≤ b.generated.line.toNat :=
      h.imp fun hab ↦ UInt32.le_iff_toNat_le.1 (Position.line_le_of_le hab)
    rw [lastLine_ofSorted, List.flatMap_congr hlines, flatMap_filter_range' hkey, toList_ofSorted]
    refine List.filter_congr fun s hs ↦ ?_
    have hle := h.line_le_lastLineOf hs
    rw [decide_eq_decide, Ne, ← UInt32.toNat_inj]
    show _ ↔ ¬ s.generated.line.toNat = 0
    omega
  find? p hp := find?_ofSorted h hp
  find?_zero column := by
    rw [Mappings.find?, line_zero]
    rfl
  slice n hn hpos := by
    rw [getElem_lineOffsets_ofSorted h, getElem_lineOffsets_ofSorted h]
    refine ⟨List.countP_mono_left fun s _ hs ↦ decide_eq_true ?_, List.countP_le_length⟩
    exact Nat.le_trans (of_decide_eq_true hs) (Nat.sub_le n 1)
  parted := exists_parted h

end Segments

/-! ### Where mappings come from -/

/-- The ways in which mappings come about. -/
inductive Made : Mappings → Prop
  /-- The segments were checked to be in order. -/
  | checked {segments : List Segment} {m : Mappings} (h : ofSegments segments = .ok m) : Made m
  /-- They were read from a text. -/
  | decoded {text : String} {m : Mappings} (h : decode text = .ok m) : Made m
  /-- They were added to a builder, in any order and with any calls between. -/
  | built (b : Builder) : Made b.build.mappings

/-- However mappings came about, their segments are in order, and the table belongs to them. -/
theorem Made.eq_ofSorted {m : Mappings} (h : m.Made) :
    Sorted m.toList ∧ m = ofSorted m.toList := by
  cases h with
  | checked h =>
    obtain ⟨hsorted, rfl⟩ := ofSegments_eq_ok_iff.1 h
    exact ⟨hsorted, rfl⟩
  | decoded h =>
    obtain ⟨heq, hread⟩ := linesRead_of_decode h
    exact ⟨hread.regular.sorted, heq⟩
  | built b => exact ⟨Builder.sortSegments_sorted _, rfl⟩

/-- Mappings answer as a scan of all their segments would, and no index that they answer from is out
of range. Segments are taken for mappings exactly if they are in order, and otherwise refused for
the first two neighbours that descend. -/
theorem indexed_of_made :
    (∀ m : Mappings, m.Made → m.Indexed) ∧
      (∀ segments, (∃ m, ofSegments segments = .ok m ∧ m.toList = segments) ↔ Sorted segments) ∧
      ∀ segments e, ofSegments segments = .error e ↔
        ∃ before a b after, segments = before ++ a :: b :: after ∧ Sorted (before ++ [a]) ∧
          b.generated < a.generated ∧ e = .unordered a.generated b.generated := by
  refine ⟨fun m hm ↦ ?_, fun segments ↦ ⟨?_, fun h ↦ ?_⟩, fun _ _ ↦ ofSegments_eq_error_iff⟩
  · obtain ⟨hsorted, heq⟩ := hm.eq_ofSorted
    rw [heq]
    exact indexed_ofSorted hsorted
  · rintro ⟨m, hm, -⟩
    exact (ofSegments_eq_ok_iff.1 hm).1
  · exact ⟨_, ofSegments_eq_ok_iff.2 ⟨h, rfl⟩, rfl⟩

/-- Segments on line zero and on two others with a blank line between, two of them at one
position. -/
def sampleTied : List Segment :=
  [⟨⟨0, 2⟩, none⟩, ⟨⟨1, 4⟩, some ⟨0, ⟨1, 0⟩, none⟩⟩, ⟨⟨1, 4⟩, some ⟨0, ⟨3, 2⟩, none⟩⟩,
    ⟨⟨3, 0⟩, none⟩]

theorem indexed_sampleTied :
    (ofSorted sampleTied).Made ∧ (ofSorted sampleTied).Indexed ∧
      (ofSorted sampleTied).line 2 = [] ∧
      (ofSorted sampleTied).find? ⟨1, 9⟩ = some ⟨⟨1, 4⟩, some ⟨0, ⟨3, 2⟩, none⟩⟩ ∧
      ofSegments sampleTied.reverse = .error (.unordered ⟨3, 0⟩ ⟨1, 4⟩) := by
  have hmade : (ofSorted sampleTied).Made := .checked (ofSegments_eq_ok_iff.2 ⟨by decide, rfl⟩)
  exact ⟨hmade, indexed_of_made.1 _ hmade, by decide, by decide, by decide⟩

end SourceChain.Mappings
