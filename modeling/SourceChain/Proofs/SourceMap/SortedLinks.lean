import SourceChain.Proofs.SourceMap.Links

/-!
# Sorted links, and the latest of them

Links are sorted by generated position, and those at one position stay in the order in which they
were (`Link.filter_sort`). So the last of the sorted links that a position is covered by can be
found without sorting: among those with the greatest column it is the one that was added last
(`Link.getLast?_filter_sort_eq_some_iff`). Where no two links lie at one position there is nothing
to be kept, and the order in which they were does not matter at all (`Link.sort_eq_of_perm`).
-/

namespace SourceChain.SourceMap

/-! ### Sorted links -/

namespace Link

/-- Links sorted stably by generated position. -/
def sort (links : List Link) : List Link :=
  links.mergeSort fun a b ↦ a.generated ≤ b.generated

variable {links : List Link} {l : Link} {p : Position}

theorem sort_perm (links : List Link) : (sort links).Perm links :=
  List.mergeSort_perm _ _

theorem sort_sorted (links : List Link) :
    (sort links).Pairwise fun a b ↦ a.generated ≤ b.generated :=
  (List.pairwise_mergeSort (Position.decide_le_trans Link.generated)
    (Position.decide_le_total Link.generated) links).imp of_decide_eq_true

/-- Links at one position stay in the order in which they were. -/
theorem filter_sort (links : List Link) (g : Position) :
    (sort links).filter (·.generated = g) = links.filter (·.generated = g) := by
  have hsame : (links.filter (·.generated = g)).Pairwise fun a b ↦
      decide (a.generated ≤ b.generated) = true := by
    refine List.pairwise_filter.2 (List.pairwise_of_forall fun a b ha hb ↦ decide_eq_true ?_)
    rw [of_decide_eq_true ha, of_decide_eq_true hb]
    exact Position.le_refl g
  have hsublist : (links.filter (·.generated = g)).Sublist (sort links) :=
    List.sublist_mergeSort (Position.decide_le_trans Link.generated)
      (Position.decide_le_total Link.generated) hsame List.filter_sublist
  have hfiltered := hsublist.filter (·.generated = g)
  rw [List.filter_filter] at hfiltered
  simp only [Bool.and_self] at hfiltered
  refine (hfiltered.eq_of_length ?_).symm
  exact ((sort_perm links).filter _).length_eq.symm

/-- Links that lie at different positions are sorted alike in whichever order they are. -/
theorem sort_eq_of_perm {others : List Link} (h : links.Perm others)
    (hdistinct : (links.map Link.generated).Nodup) : sort links = sort others := by
  have hperm : (sort links).Perm (sort others) :=
    (sort_perm links).trans (h.trans (sort_perm others).symm)
  refine hperm.eq_of_pairwise (fun a b ha hb hab hba ↦ ?_) (sort_sorted links) (sort_sorted others)
  have ha : a ∈ links := (sort_perm links).mem_iff.1 ha
  have hb : b ∈ links := h.mem_iff.2 ((sort_perm others).mem_iff.1 hb)
  exact List.inj_on_of_nodup_map hdistinct ha hb (Position.le_antisymm hab hba)

/-! ### The latest link -/

/-- Whether a link lies on the line of a position and not past its column. -/
def Covers (l : Link) (p : Position) : Prop :=
  l.generated.line = p.line ∧ l.generated.column ≤ p.column

instance (l : Link) (p : Position) : Decidable (l.Covers p) :=
  inferInstanceAs (Decidable (_ ∧ _))

/-- The link that was added last among those with the greatest column on the line of a position and
not past its column. -/
def Latest (links : List Link) (p : Position) (l : Link) : Prop :=
  ∃ before after, links = before ++ l :: after ∧ l.Covers p ∧
    (∀ k ∈ links, k.Covers p → k.generated.column ≤ l.generated.column) ∧
    ∀ k ∈ after, k.Covers p → k.generated.column ≠ l.generated.column

/-- The latest link is the last one at its position. -/
theorem Latest.getLast?_filter (h : Latest links p l) :
    (links.filter (·.generated = l.generated)).getLast? = some l := by
  obtain ⟨before, after, rfl, hcovers, -, hafter⟩ := h
  have hnone : after.filter (·.generated = l.generated) = [] := by
    refine List.filter_eq_nil_iff.2 fun k hk hsame ↦ ?_
    have hsame : k.generated = l.generated := of_decide_eq_true hsame
    refine hafter k hk ?_ (by rw [hsame])
    rw [Covers, hsame]
    exact hcovers
  have hhead : decide (l.generated = l.generated) = true := decide_eq_true rfl
  rw [List.filter_append, List.filter_cons, if_pos hhead, hnone, List.getLast?_append]
  rfl

/-- The last of the sorted links that a position is covered by is the latest. -/
theorem latest_of_getLast? (h : ((sort links).filter (·.Covers p)).getLast? = some l) :
    Latest links p l := by
  obtain ⟨lower, hlower⟩ := List.getLast?_eq_some_iff.1 h
  have hcovers : l.Covers p :=
    of_decide_eq_true (List.mem_filter.1 (List.mem_of_getLast? h)).2
  have hgreatest : ∀ k ∈ links, k.Covers p → k.generated.column ≤ l.generated.column := by
    intro k hk hkp
    have hmem : k ∈ lower ++ [l] := by
      rw [← hlower]
      exact List.mem_filter.2 ⟨(sort_perm links).mem_iff.2 hk, decide_eq_true hkp⟩
    rcases List.mem_append.1 hmem with hmem | hmem
    · have hsorted := (sort_sorted links).sublist
        (List.filter_sublist (p := fun k ↦ decide (k.Covers p)))
      rw [hlower] at hsorted
      have hle := (List.pairwise_append.1 hsorted).2.2 k hmem l List.mem_cons_self
      exact Position.column_le_of_le hle (hkp.1.trans hcovers.1.symm)
    · rw [List.mem_singleton.1 hmem]
      exact UInt32.le_refl _
  -- at the position of the last one, sorting has kept the order
  have hposition : links.filter (·.generated = l.generated) =
      lower.filter (·.generated = l.generated) ++ [l] := by
    have hsub : (sort links).filter (·.generated = l.generated) =
        ((sort links).filter (·.Covers p)).filter (·.generated = l.generated) := by
      rw [List.filter_filter]
      refine List.filter_congr fun k _ ↦ ?_
      rw [← Bool.decide_and, decide_eq_decide]
      refine ⟨fun hsame ↦ ⟨hsame, ?_⟩, And.left⟩
      rw [Covers, hsame]
      exact hcovers
    rw [← filter_sort, hsub, hlower, List.filter_append, List.filter_singleton]
    simp
  obtain ⟨first, second, hsplit, -, hsecond⟩ := List.filter_eq_append_iff.1 hposition
  obtain ⟨others, after, rfl, -, -, hafter⟩ := List.filter_eq_cons_iff.1 hsecond
  refine ⟨first ++ others, after, by rw [hsplit, List.append_assoc], hcovers, hgreatest, ?_⟩
  intro k hk hkp hcolumn
  have hline : k.generated.line = l.generated.line := hkp.1.trans hcovers.1.symm
  have hsame : k.generated = l.generated :=
    Position.le_antisymm (.inr ⟨hline, hcolumn ▸ UInt32.le_refl _⟩)
      (.inr ⟨hline.symm, hcolumn ▸ UInt32.le_refl _⟩)
  exact List.filter_eq_nil_iff.1 hafter k hk (decide_eq_true hsame)

/-- Looking for the last of the sorted links that a position is covered by finds the latest. -/
theorem getLast?_filter_sort_eq_some_iff :
    ((sort links).filter (·.Covers p)).getLast? = some l ↔ Latest links p l := by
  refine ⟨latest_of_getLast?, fun h ↦ ?_⟩
  obtain ⟨before, after, hsplit, hcovers, hgreatest, -⟩ := id h
  have hl : l ∈ links := hsplit ▸ List.mem_append_right _ List.mem_cons_self
  have hmem : l ∈ (sort links).filter (·.Covers p) :=
    List.mem_filter.2 ⟨(sort_perm links).mem_iff.2 hl, decide_eq_true hcovers⟩
  rcases hlast : ((sort links).filter (·.Covers p)).getLast? with - | k
  · rw [List.getLast?_eq_none_iff.1 hlast] at hmem
    cases hmem
  · -- both are the last at the one position where the column is greatest
    have hk := latest_of_getLast? hlast
    obtain ⟨before', after', hsplit', hcovers', hgreatest', -⟩ := id hk
    have hkmem : k ∈ links := hsplit' ▸ List.mem_append_right _ List.mem_cons_self
    have hsame : k.generated = l.generated :=
      Position.le_antisymm
        (.inr ⟨hcovers'.1.trans hcovers.1.symm, hgreatest k hkmem hcovers'⟩)
        (.inr ⟨hcovers.1.trans hcovers'.1.symm, hgreatest' l hl hcovers⟩)
    rw [hlast, ← hk.getLast?_filter, hsame, h.getLast?_filter]

end Link

end SourceChain.SourceMap
