import SourceChain.Proofs.Json.Skip

/-!
# Reading records is local

A record is its members, or its fields in a row as a list. What is found in either is given without
the bound on its length, one member (`members_eq`) and one item (`listed`) at a time, and what a run
over them is made of is said once (`members_cases`, `listed_cases`). A record is local if the
readers of its fields are (`localAt_record`).
-/

namespace SourceChain.Json.Reader

variable {α σ : Type}

/-! ### Where a list or record goes on -/

/-- What is next: whether there is an item, and what stands there. -/
def stands {n : Nat} : Except Fault (Next n) → Option (Bool × List UInt8)
  | .error _ => none
  | .ok (.closed rest) => some (false, rest)
  | .ok (.item rest) => some (true, rest)

theorem length_le_of_stands {n : Nat} {e : Except Fault (Next n)} {more : Bool}
    {rest : List UInt8} (h : stands e = some (more, rest)) : rest.length ≤ n := by
  rcases e with e | ⟨⟨r, hr⟩ | ⟨r, hr⟩⟩
  · cases h
  · obtain ⟨-, rfl⟩ := Prod.mk.inj (Option.some.inj h)
    exact Nat.le_of_lt hr
  · obtain ⟨-, rfl⟩ := Prod.mk.inj (Option.some.inj h)
    exact hr

/-- A key behind a comma, from behind its opening quote. -/
def keyAfterComma : List UInt8 → Option (Bool × List UInt8)
  | [] => none
  | c :: r => if c = quote then some (true, r) else none

/-- The end of a record, or its next key. -/
def keyAt (first : Bool) : List UInt8 → Option (Bool × List UInt8)
  | [] => none
  | b :: r =>
    if b = closeRecord then some (false, r)
    else if first then if b = quote then some (true, r) else none
    else if b = comma then keyAfterComma (r.dropWhile isBlank)
    else none

theorem stands_nextKey (first : Bool) (s : List UInt8) :
    stands (nextKey first s) = keyAt first (s.dropWhile isBlank) := by
  rw [nextKey, ← skipBlanks_val]
  rcases skipBlanks s with ⟨- | ⟨b, r⟩, h⟩
  · rfl
  simp only [keyAt, ← skipBlanks_val]
  split
  · rfl
  · split
    · split <;> rfl
    · split
      · rcases skipBlanks r with ⟨- | ⟨c, r'⟩, h'⟩
        · rfl
        · simp only [keyAfterComma]
          split <;> rfl
      · rfl

theorem localAt_nextKey (first : Bool) (s : List UInt8) :
    LocalAt (fun s ↦ stands (nextKey first s)) s := by
  have hcomma : ∀ s, LocalAt keyAfterComma s := by
    rintro (- | ⟨c, r⟩)
    · exact localAt_none rfl
    · exact (localAt_ite (fun _ ↦ localAt_some _ r) fun _ ↦ localAt_none rfl).cons fun _ ↦ rfl
  simp only [stands_nextKey]
  refine LocalAt.blanks ?_
  rcases s.dropWhile isBlank with - | ⟨b, r⟩
  · exact localAt_none rfl
  · exact (localAt_ite (fun _ ↦ localAt_some _ r) fun _ ↦ localAt_ite
      (fun _ ↦ localAt_ite (fun _ ↦ localAt_some _ r) fun _ ↦ localAt_none rfl)
      fun _ ↦ localAt_ite (fun _ ↦ (hcomma _).blanks) fun _ ↦ localAt_none rfl).cons fun _ ↦ rfl

/-- An item behind a comma. -/
def itemAfterComma : List UInt8 → Option (Bool × List UInt8)
  | [] => none
  | c :: r => if c = closeList then none else some (true, c :: r)

/-- The end of a list, or its next item. -/
def itemAt (first : Bool) : List UInt8 → Option (Bool × List UInt8)
  | [] => none
  | b :: r =>
    if b = closeList then some (false, r)
    else if first then some (true, b :: r)
    else if b = comma then itemAfterComma (r.dropWhile isBlank)
    else none

theorem stands_nextItem (first : Bool) (s : List UInt8) :
    stands (nextItem first s) = itemAt first (s.dropWhile isBlank) := by
  rw [nextItem, ← skipBlanks_val]
  rcases skipBlanks s with ⟨- | ⟨b, r⟩, h⟩
  · rfl
  simp only [itemAt, ← skipBlanks_val]
  split
  · rfl
  · split
    · rfl
    · split
      · rcases skipBlanks r with ⟨- | ⟨c, r'⟩, h'⟩
        · rfl
        · simp only [itemAfterComma]
          split <;> rfl
      · rfl

theorem localAt_nextItem (first : Bool) (s : List UInt8) :
    LocalAt (fun s ↦ stands (nextItem first s)) s := by
  have hcomma : ∀ s, LocalAt itemAfterComma s := by
    rintro (- | ⟨c, r⟩)
    · exact localAt_none rfl
    · by_cases hc : c = closeList
      · exact localAt_none (if_pos hc)
      · refine localAt_stay true fun r' hr ↦ ?_
        obtain ⟨r', rfl⟩ := List.head?_eq_some_iff.1 hr
        exact if_neg hc
  simp only [stands_nextItem]
  refine LocalAt.blanks ?_
  rcases s.dropWhile isBlank with - | ⟨b, r⟩
  · exact localAt_none rfl
  by_cases hclose : b = closeList
  · exact (localAt_some _ r).cons fun r ↦ if_pos hclose
  cases first with
  | true =>
    refine localAt_stay true fun r' hr ↦ ?_
    obtain ⟨r', rfl⟩ := List.head?_eq_some_iff.1 hr
    simp only [itemAt, if_neg hclose, if_true]
  | false =>
    by_cases hb : b = comma
    · refine (hcomma _).blanks.cons fun r ↦ ?_
      simp only [itemAt, if_neg hclose, Bool.false_eq_true, if_false, if_pos hb]
    · refine localAt_none ?_
      simp only [itemAt, if_neg hclose, Bool.false_eq_true, if_false, if_neg hb]

/-- An item may start with an octet that is neither a blank nor the end of a list. -/
def StartsItem (s : List UInt8) : Prop :=
  ∃ b ∈ s.head?, isBlank b = false ∧ b ≠ closeList

theorem StartsItem.exists_eq_cons {s : List UInt8} (h : StartsItem s) :
    ∃ b r, s = b :: r ∧ isBlank b = false ∧ b ≠ closeList := by
  obtain ⟨b, hb, hblank, hclose⟩ := h
  obtain ⟨r, rfl⟩ := List.head?_eq_some_iff.1 (Option.mem_def.1 hb)
  exact ⟨b, r, rfl, hblank, hclose⟩

/-- Where an item stands another may stand. -/
theorem exists_of_stands_nextItem {first : Bool} {s r : List UInt8}
    (h : stands (nextItem first s) = some (true, r)) :
    ∃ taken, s = taken ++ r ∧ (first = false → taken ≠ []) ∧ StartsItem r ∧
      ∀ r', StartsItem r' → stands (nextItem first (taken ++ r')) = some (true, r') := by
  rw [stands_nextItem] at h
  obtain ⟨blanks, hblanks, hs⟩ := exists_blanks s
  rcases hdrop : s.dropWhile isBlank with - | ⟨b, t⟩
  · rw [hdrop] at h
    cases h
  have hb := isBlank_of_dropWhile_eq_cons hdrop
  rw [hdrop] at h hs
  rw [itemAt] at h
  split at h
  · cases h
  next hclose =>
    cases first with
    | true =>
      obtain ⟨-, rfl⟩ := Prod.mk.inj (Option.some.inj h)
      refine ⟨blanks, hs.symm, Bool.noConfusion, ⟨b, rfl, hb, hclose⟩, fun r' hr' ↦ ?_⟩
      obtain ⟨c, t', rfl, hc, hc'⟩ := hr'.exists_eq_cons
      rw [stands_nextItem, dropWhile_blanks hblanks hc]
      simp only [itemAt, if_neg hc', if_true]
    | false =>
      rw [if_neg Bool.false_ne_true] at h
      split at h
      next hcomma =>
        obtain ⟨blanks', hblanks', ht⟩ := exists_blanks t
        rcases hdrop' : t.dropWhile isBlank with - | ⟨c, u⟩
        · rw [hdrop'] at h
          cases h
        rw [hdrop'] at h ht
        rw [itemAfterComma] at h
        split at h
        · cases h
        next hc =>
          obtain ⟨-, rfl⟩ := Prod.mk.inj (Option.some.inj h)
          refine ⟨blanks ++ b :: blanks', ?_, fun _ ↦ by simp,
            ⟨c, rfl, isBlank_of_dropWhile_eq_cons hdrop', hc⟩, fun r' hr' ↦ ?_⟩
          · rw [List.append_assoc, List.cons_append, ht, hs]
          · obtain ⟨d, v, rfl, hd, hd'⟩ := hr'.exists_eq_cons
            rw [stands_nextItem, List.append_assoc, List.cons_append, dropWhile_blanks hblanks hb]
            simp only [itemAt, if_neg hclose, Bool.false_eq_true, if_false, if_pos hcomma,
              dropWhile_blanks hblanks' hd]
            exact if_neg hd'
      · cases h

/-! ### Members -/

variable {fields : List (Field σ)}

/-- Reads a member from behind its key, or passes over it. -/
def member (fields : List (Field σ)) (key : String) (collected : σ) (s : List UInt8) :
    Option (σ × List UInt8) :=
  (left (skipColon s)).bind fun p ↦
    match fields.find? (·.key == key) with
    | none => (left (skip p.2)).bind fun q ↦ some (collected, q.2)
    | some field => if field.isSet collected then none else found (field.read collected p.2)

/-- Reads the members of a record up to its end. -/
def members (fields : List (Field σ)) (first : Bool) (collected : σ) (s : List UInt8) :
    Option (σ × List UInt8) :=
  found (membersFrom fields s.length first collected s (length_le_self s))

theorem length_lt_of_member {key : String} {collected next : σ} {s rest : List UInt8}
    (h : member fields key collected s = some (next, rest)) : rest.length < s.length := by
  obtain ⟨⟨_, r⟩, hr, h⟩ := Option.bind_eq_some_iff.1 h
  have hcolon : r.length < s.length := prop_of_left hr
  dsimp only at h
  split at h
  · obtain ⟨⟨_, r'⟩, hskip, h⟩ := Option.bind_eq_some_iff.1 h
    obtain ⟨-, rfl⟩ := Prod.mk.inj (Option.some.inj h)
    exact Nat.lt_trans (prop_of_left hskip) hcolon
  · split at h
    · cases h
    · exact Nat.lt_trans (prop_of_found h) hcolon

theorem found_membersFrom (l : Nat) {n : Nat} {first : Bool} {collected : σ} {s : List UInt8}
    (h : s.length ≤ n) (hl : s.length = l) :
    found (membersFrom fields n first collected s h) =
      (stands (nextKey first s)).bind fun p ↦
        if p.1 then (found (quotedText p.2)).bind fun q ↦
          (member fields q.1 collected q.2).bind fun t ↦ members fields false t.1 t.2
        else some (collected, p.2) := by
  induction l using Nat.strongRecOn generalizing n first collected s with
  | ind l ih =>
    subst hl
    have hmembers : ∀ {n : Nat} {next : σ} {r : List UInt8} (h : r.length ≤ n),
        r.length < s.length → found (membersFrom fields n false next r h) =
          members fields false next r :=
      fun h hr ↦ (ih _ hr h rfl).trans (ih _ hr _ rfl).symm
    rw [membersFrom]
    rcases nextKey first s with e | ⟨⟨rest, hrest⟩ | ⟨r, hr⟩⟩
    · rfl
    · rfl
    simp only [stands, Option.bind_some, if_true]
    rcases quotedText r with e | ⟨key, r₁, h₁⟩
    · rfl
    simp only [found_ok, Option.bind_some, member]
    rcases hfield : fields.find? (·.key == key) with - | field
    · simp only [hfield]
      rcases skipColon r₁ with e | ⟨r₂, h₂⟩
      · rfl
      simp only [left_ok, Option.bind_some]
      rcases skip r₂ with e | ⟨rest, hr'⟩
      · rfl
      exact hmembers _ (Nat.lt_of_lt_of_le (Nat.lt_trans hr' (Nat.lt_trans h₂ h₁)) hr)
    · by_cases hset : field.isSet collected
      · simp only [hfield, if_pos hset]
        rcases skipColon r₁ with e | ⟨r₂, h₂⟩ <;> rfl
      simp only [hfield, if_neg hset]
      rcases skipColon r₁ with e | ⟨r₂, h₂⟩
      · rfl
      simp only [left_ok, Option.bind_some]
      rcases field.read collected r₂ with e | ⟨next, rest, hr'⟩
      · rfl
      exact hmembers _ (Nat.lt_of_lt_of_le (Nat.lt_trans hr' (Nat.lt_trans h₂ h₁)) hr)

theorem members_eq (first : Bool) (collected : σ) (s : List UInt8) :
    members fields first collected s =
      (stands (nextKey first s)).bind fun p ↦
        if p.1 then (found (quotedText p.2)).bind fun q ↦
          (member fields q.1 collected q.2).bind fun t ↦ members fields false t.1 t.2
        else some (collected, p.2) :=
  found_membersFrom _ _ rfl

/-- What members are made of: their end, or one member and the others behind it. -/
theorem members_cases {first : Bool} {collected last : σ} {s rest : List UInt8}
    (h : members fields first collected s = some (last, rest)) :
    last = collected ∨ ∃ r key r₁ next r₂, stands (nextKey first s) = some (true, r) ∧
      found (quotedText r) = some (key, r₁) ∧
      member fields key collected r₁ = some (next, r₂) ∧
      members fields false next r₂ = some (last, rest) ∧ r₂.length < s.length := by
  rw [members_eq] at h
  obtain ⟨⟨- | -, r⟩, hstands, h⟩ := Option.bind_eq_some_iff.1 h
  · exact .inl (Prod.mk.inj (Option.some.inj h)).1.symm
  · obtain ⟨⟨key, r₁⟩, hkey, h⟩ := Option.bind_eq_some_iff.1 h
    obtain ⟨⟨next, r₂⟩, hmember, h⟩ := Option.bind_eq_some_iff.1 h
    have hlength : r₂.length < s.length :=
      Nat.lt_of_lt_of_le (Nat.lt_trans (length_lt_of_member hmember) (prop_of_found hkey))
        (length_le_of_stands hstands)
    exact .inr ⟨r, key, r₁, next, r₂, hstands, hkey, hmember, h, hlength⟩

/-- Whether the readers of the fields are local. -/
def LocalFields (fields : List (Field σ)) : Prop :=
  ∀ field ∈ fields, ∀ collected s, LocalAt (fun s ↦ found (field.read collected s)) s

theorem localAt_member (h : LocalFields fields) (key : String) (collected : σ) (s : List UInt8) :
    LocalAt (member fields key collected) s := by
  rcases hfield : fields.find? (·.key == key) with - | field
  · have hnext := (localAt_skipColon s).bind
      (g := fun _ r ↦ (left (skip r)).bind fun q ↦ some (collected, q.2)) fun _ r _ ↦
        (localAt_skip r).bind (g := fun _ r ↦ some (collected, r)) fun _ r _ ↦ localAt_some _ r
    refine hnext.of_head fun r _ ↦ ?_
    simp only [member, hfield]
  · have hnext := (localAt_skipColon s).bind
      (g := fun _ r ↦ if field.isSet collected then none else found (field.read collected r))
      fun _ r _ ↦ localAt_ite (fun _ ↦ localAt_none rfl) fun _ ↦
        h field (List.mem_of_find?_eq_some hfield) collected r
    refine hnext.of_head fun r _ ↦ ?_
    simp only [member, hfield]

theorem localAt_members (h : LocalFields fields) (first : Bool) (collected : σ) (s : List UInt8) :
    LocalAt (members fields first collected) s := by
  induction hl : s.length using Nat.strongRecOn generalizing first collected s with
  | ind l ih =>
    subst hl
    have hnext := (localAt_nextKey first s).bind
      (g := fun more r ↦ if more then (found (quotedText r)).bind fun q ↦
        (member fields q.1 collected q.2).bind fun t ↦ members fields false t.1 t.2
        else some (collected, r)) fun more r hr ↦
          localAt_ite (fun _ ↦ (localAt_quotedText r).bind
            (g := fun key r ↦ (member fields key collected r).bind fun t ↦
              members fields false t.1 t.2) fun key r' hr' ↦
              (localAt_member h key collected r').bind (g := members fields false)
                fun next rest hrest ↦ ih _ (Nat.lt_of_lt_of_le
                  (Nat.lt_trans (length_lt_of_member hrest) (prop_of_found hr'))
                  (length_le_of_stands hr)) false next rest rfl)
            fun _ ↦ localAt_some _ r
    exact (funext (members_eq first collected)) ▸ hnext

/-! ### Fields in a row -/

/-- Reads the fields of a record that is written as a list. -/
def listed : List (Field σ) → Bool → σ → List UInt8 → Option (σ × List UInt8)
  | [], _, collected, s => (left (endList s)).bind fun p ↦ some (collected, p.2)
  | field :: fields, first, collected, s =>
    (stands (nextItem first s)).bind fun p ↦
      if p.1 then (found (field.read collected p.2)).bind fun q ↦ listed fields false q.1 q.2
      else if (field :: fields).all (·.trailing) then some (collected, p.2)
      else none

theorem found_fieldsFrom {n : Nat} {first : Bool} {collected : σ} {s : List UInt8}
    (h : s.length ≤ n) :
    found (fieldsFrom n first collected s h fields) = listed fields first collected s := by
  induction fields generalizing first collected s with
  | nil =>
    rw [fieldsFrom, listed]
    rcases endList s with e | ⟨rest, hrest⟩ <;> rfl
  | cons field fields ih =>
    rw [fieldsFrom, listed]
    rcases nextItem first s with e | ⟨⟨rest, hrest⟩ | ⟨r, hr⟩⟩
    · rfl
    · simp only [stands, Option.bind_some, Bool.false_eq_true, if_false]
      split <;> rfl
    · simp only [stands, Option.bind_some, if_true]
      rcases field.read collected r with e | ⟨next, rest, hrest⟩
      · rfl
      · exact ih _

/-- What a row of fields is made of: an early end, or the value of the first and the others. -/
theorem listed_cases {field : Field σ} {first : Bool} {collected last : σ} {s rest : List UInt8}
    (h : listed (field :: fields) first collected s = some (last, rest)) :
    last = collected ∨ ∃ r next r₁, stands (nextItem first s) = some (true, r) ∧
      found (field.read collected r) = some (next, r₁) ∧
      listed fields false next r₁ = some (last, rest) := by
  obtain ⟨⟨- | -, r⟩, hstands, h⟩ := Option.bind_eq_some_iff.1 h
  · rw [if_neg Bool.false_ne_true] at h
    split at h
    · exact .inl (Prod.mk.inj (Option.some.inj h)).1.symm
    · cases h
  · obtain ⟨⟨next, r₁⟩, hread, h⟩ := Option.bind_eq_some_iff.1 h
    exact .inr ⟨r, next, r₁, hstands, hread, h⟩

/-- The end of a list. -/
def endAt : List UInt8 → Option (Unit × List UInt8)
  | [] => none
  | b :: r => if b = closeList then some ((), r) else none

theorem left_endList (s : List UInt8) : left (endList s) = endAt (s.dropWhile isBlank) := by
  rw [endList, ← skipBlanks_val]
  rcases skipBlanks s with ⟨- | ⟨b, r⟩, h⟩
  · rfl
  · simp only [endAt]
    split <;> rfl

theorem localAt_endList (s : List UInt8) : LocalAt (fun s ↦ left (endList s)) s := by
  simp only [left_endList]
  refine LocalAt.blanks ?_
  rcases s.dropWhile isBlank with - | ⟨b, r⟩
  · exact localAt_none rfl
  · exact (localAt_ite (fun _ ↦ localAt_some () r) fun _ ↦ localAt_none rfl).cons fun _ ↦ rfl

theorem localAt_listed (h : LocalFields fields) (first : Bool) (collected : σ) (s : List UInt8) :
    LocalAt (listed fields first collected) s := by
  induction fields generalizing first collected s with
  | nil =>
    exact (localAt_endList s).bind (g := fun _ r ↦ some (collected, r)) fun _ r _ ↦ localAt_some _ r
  | cons field fields ih =>
    have hfields : LocalFields fields := fun g hg ↦ h g (List.mem_cons_of_mem _ hg)
    have hread := h field List.mem_cons_self collected
    exact (localAt_nextItem first s).bind
      (g := fun more r ↦
        if more then (found (field.read collected r)).bind fun q ↦ listed fields false q.1 q.2
        else if (field :: fields).all (·.trailing) then some (collected, r) else none)
      fun more r _ ↦ localAt_ite
        (fun _ ↦ (hread r).bind (g := listed fields false) fun next r _ ↦ ih hfields false next r)
        fun _ ↦ localAt_ite (fun _ ↦ localAt_some _ r) fun _ ↦ localAt_none rfl

/-! ### Records -/

theorem members_of_membersFrom {n : Nat} {first : Bool} {collected : σ} {s : List UInt8}
    (h : s.length ≤ n) :
    found (membersFrom fields n first collected s h) = members fields first collected s :=
  (found_membersFrom _ h rfl).trans (members_eq first collected s).symm

/-- A record from its opening on. -/
def recordAt (fields : List (Field σ)) (start : σ) : List UInt8 → Option (σ × List UInt8)
  | [] => none
  | b :: r =>
    if b = openList then listed fields true start r
    else if b = openRecord then members fields true start r
    else none

theorem found_record {finish : σ → Option α} {start : σ} (s : List UInt8) :
    found (record fields start finish s) =
      (recordAt fields start (s.dropWhile isBlank)).bind fun p ↦
        (finish p.1).bind fun x ↦ some (x, p.2) := by
  rw [record, ← skipBlanks_val]
  rcases skipBlanks s with ⟨- | ⟨b, r⟩, h⟩
  · rfl
  simp only [recordAt]
  by_cases hlist : b = openList
  · simp only [if_pos hlist, ← found_fieldsFrom (Nat.le_of_lt h : r.length ≤ s.length)]
    rcases fieldsFrom s.length true start r _ fields with e | ⟨last, rest⟩
    · rfl
    · simp only [found_ok, Option.bind_some]
      rcases finish last with - | x <;> rfl
  by_cases hrecord : b = openRecord
  · simp only [if_neg hlist, if_pos hrecord,
      ← members_of_membersFrom (Nat.le_of_lt h : r.length ≤ s.length)]
    rcases membersFrom fields s.length true start r _ with e | ⟨last, rest⟩
    · rfl
    · simp only [found_ok, Option.bind_some]
      rcases finish last with - | x <;> rfl
  · simp only [if_neg hlist, if_neg hrecord]
    rfl

theorem localAt_record (h : LocalFields fields) {finish : σ → Option α} (start : σ)
    (s : List UInt8) : LocalAt (fun s ↦ found (record fields start finish s)) s := by
  have hrecord : ∀ s, LocalAt (recordAt fields start) s := by
    rintro (- | ⟨b, r⟩)
    · exact localAt_none rfl
    · exact (localAt_ite (fun _ ↦ localAt_listed h true start r) fun _ ↦
        localAt_ite (fun _ ↦ localAt_members h true start r) fun _ ↦ localAt_none rfl).cons
          fun _ ↦ rfl
  simp only [found_record]
  exact LocalAt.blanks (f := fun s ↦ (recordAt fields start s).bind fun p ↦
    (finish p.1).bind fun x ↦ some (x, p.2)) ((hrecord _).bind
      (g := fun last r ↦ (finish last).bind fun x ↦ some (x, r)) fun last r _ ↦ by
        rcases finish last with - | x
        · exact localAt_none rfl
        · exact localAt_some x r)

end SourceChain.Json.Reader
