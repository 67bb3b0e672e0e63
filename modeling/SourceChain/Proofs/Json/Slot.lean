import SourceChain.Proofs.Json.Members
import SourceChain.Proofs.Json.Place

/-!
# Numbers in records

A record collects what its fields store. Where one of them stores a value that the others leave
alone and take no notice of (`Field.Apart`), a number in the value may give way to any other, and
the record is collected as before but for that value (`Slot.hasPlace`). In a record with members the
value is at the only member with its key, as a key stands only once; in a list it is at the place of
its field.
-/

namespace SourceChain.Json.Reader

variable {α β γ σ : Type}

/-! ### Fields -/

theorem found_read_of {key : String} {trailing : Bool} {value : Reader β} {get : σ → Option β}
    {store : β → σ → σ} (c : σ) (s : List UInt8) :
    found ((Field.of key trailing value get store).read c s) =
      (found (value s)).bind fun p ↦ some (store p.1 c, p.2) := by
  simp only [Field.of]
  rcases value s with e | ⟨y, rest⟩ <;> rfl

theorem exists_of_found_read_of {key : String} {trailing : Bool} {value : Reader β}
    {get : σ → Option β} {store : β → σ → σ} {c next : σ} {s rest : List UInt8}
    (h : found ((Field.of key trailing value get store).read c s) = some (next, rest)) :
    ∃ y, found (value s) = some (y, rest) ∧ store y c = next := by
  rw [found_read_of] at h
  obtain ⟨⟨y, r⟩, hfound, hnext⟩ := Option.bind_eq_some_iff.1 h
  obtain ⟨hstore, rfl⟩ := Prod.mk.inj (Option.some.inj hnext)
  exact ⟨y, hfound, hstore⟩

theorem localFields_nil : LocalFields ([] : List (Field σ)) :=
  fun _ hfield ↦ absurd hfield List.not_mem_nil

/-- The reader of a field is local if that of its value is. -/
theorem LocalFields.cons {key : String} {trailing : Bool} {value : Reader β} {get : σ → Option β}
    {store : β → σ → σ} {fields : List (Field σ)} (h : ∀ s, LocalAt (fun s ↦ found (value s)) s)
    (hfields : LocalFields fields) : LocalFields (.of key trailing value get store :: fields) := by
  refine List.forall_mem_cons.2 ⟨fun c s ↦ ?_, hfields⟩
  simp only [found_read_of]
  exact (h s).bind (g := fun y r ↦ some (store y c, r)) fun _ r _ ↦ localAt_some _ r

/-- Reading a field leaves what another stores, and takes no notice of it. -/
structure Field.Apart (field : Field σ) (get : σ → Option β) (store : β → σ → σ) : Prop where
  /-- Whether the field has been read does not depend on it. -/
  isSet_store : ∀ y c, field.isSet (store y c) = field.isSet c
  /-- What the field adds does not depend on it. -/
  read_store : ∀ y c s,
    found (field.read (store y c) s) = (found (field.read c s)).map (Prod.map (store y) id)
  /-- What the other stores stays. -/
  get_read : ∀ {c next : σ} {s rest : List UInt8}, found (field.read c s) = some (next, rest) →
    get next = get c

/-- Fields that store in different places are kept apart. -/
theorem Field.apart_of {key : String} {trailing : Bool} {value : Reader γ} {get' : σ → Option γ}
    {store' : γ → σ → σ} {get : σ → Option β} {store : β → σ → σ}
    (hisSet : ∀ y c, get' (store y c) = get' c)
    (hcomm : ∀ y z c, store' z (store y c) = store y (store' z c))
    (hget : ∀ z c, get (store' z c) = get c) :
    (Field.of key trailing value get' store').Apart get store where
  isSet_store y c := congrArg Option.isSome (hisSet y c)
  read_store y c s := by
    rw [found_read_of, found_read_of, Option.map_bind]
    rcases found (value s) with - | ⟨z, rest⟩
    · rfl
    · simp only [Option.bind_some, Function.comp, Option.map_some, hcomm]
      rfl
  get_read {c next s rest} h := by
    obtain ⟨z, -, rfl⟩ := exists_of_found_read_of h
    exact hget z c

/-- Among the fields there is one for `value` that the others are kept apart from. -/
structure Slot (fields : List (Field σ)) (key : String) (trailing : Bool) (value : Reader β)
    (get : σ → Option β) (store : β → σ → σ) : Prop where
  /-- The field and the others. -/
  exists_split : ∃ before after, fields = before ++ .of key trailing value get store :: after ∧
    ∀ field ∈ before ++ after, field.key ≠ key ∧ field.Apart get store
  /-- What is stored is there. -/
  get_store : ∀ y c, get (store y c) = some y
  /-- What is stored last stays. -/
  store_store : ∀ y y' c, store y' (store y c) = store y' c
  /-- The readers of the fields are local. -/
  localFields : LocalFields fields

section Slot

variable {fields : List (Field σ)} {key : String} {trailing : Bool} {value : Reader β}
  {get : σ → Option β} {store : β → σ → σ} {c next last : σ} {s rest : List UInt8} {y : β}
  {word : β → Option UInt32} {set : UInt32 → β → β} {w : UInt32}

/-! ### Members -/

theorem Slot.eq_or_apart (h : Slot fields key trailing value get store) {field : Field σ}
    (hfield : field ∈ fields) :
    field = .of key trailing value get store ∨ field.key ≠ key ∧ field.Apart get store := by
  obtain ⟨before, after, rfl, hothers⟩ := h.exists_split
  rcases List.mem_append.1 hfield with hmem | hmem
  · exact .inr (hothers field (List.mem_append_left _ hmem))
  · rcases List.mem_cons.1 hmem with hmem | hmem
    · exact .inl hmem
    · exact .inr (hothers field (List.mem_append_right _ hmem))

theorem Slot.find?_eq (h : Slot fields key trailing value get store) :
    fields.find? (·.key == key) = some (.of key trailing value get store) := by
  obtain ⟨before, after, rfl, hothers⟩ := h.exists_split
  refine List.find?_eq_some_iff_append.2
    ⟨beq_self_eq_true _, before, after, rfl, fun field hfield ↦ ?_⟩
  simpa using (hothers field (List.mem_append_left _ hfield)).1

/-- A field that is not read again leaves what it has stored. -/
theorem Slot.get_member (h : Slot fields key trailing value get store) {key' : String}
    (hset : (get c).isSome ∨ key' ≠ key)
    (hmember : member fields key' c s = some (next, rest)) : get next = get c := by
  obtain ⟨⟨_, r⟩, -, hmember⟩ := Option.bind_eq_some_iff.1 hmember
  dsimp only at hmember
  split at hmember
  · obtain ⟨p, -, hp⟩ := Option.bind_eq_some_iff.1 hmember
    obtain ⟨rfl, -⟩ := Prod.mk.inj (Option.some.inj hp)
    rfl
  next field hfield =>
    split at hmember
    · cases hmember
    next hunset =>
      rcases h.eq_or_apart (List.mem_of_find?_eq_some hfield) with rfl | ⟨-, hapart⟩
      · rcases hset with hset | hkey
        · exact absurd hset hunset
        · have hsame := List.find?_some hfield
          exact absurd (eq_of_beq hsame).symm hkey
      · exact hapart.get_read hmember

/-- What has been stored may be something else, and a member is read as before. -/
theorem Slot.member_store (h : Slot fields key trailing value get store) (y : β) {key' : String}
    (hset : (get c).isSome) :
    member fields key' (store y c) s = (member fields key' c s).map (Prod.map (store y) id) := by
  rw [member, member, Option.map_bind]
  congr 1
  funext p
  rcases hfield : fields.find? (·.key == key') with - | field
  · simp only [hfield, Function.comp, Option.map_bind]
    congr 1
  simp only [hfield, Function.comp]
  rcases h.eq_or_apart (List.mem_of_find?_eq_some hfield) with rfl | ⟨-, hapart⟩
  · have hthen : (Field.of key trailing value get store).isSet (store y c) = true := by
      simp [Field.of, h.get_store]
    have hnow : (Field.of key trailing value get store).isSet c = true := hset
    simp only [hthen, hnow, if_true, Option.map_none]
  · rw [hapart.isSet_store]
    split
    · rfl
    · exact hapart.read_store y c p.2

theorem Slot.get_members (h : Slot fields key trailing value get store) {first : Bool}
    (hset : (get c).isSome) (hmembers : members fields first c s = some (last, rest)) :
    get last = get c := by
  induction hl : s.length using Nat.strongRecOn generalizing first c s with
  | ind l ih =>
    subst hl
    obtain rfl | ⟨r, key', r₁, next, r₂, -, -, hmember, hmembers, hlength⟩ := members_cases hmembers
    · rfl
    · have hget := h.get_member (.inl hset) hmember
      rw [ih _ hlength (hget ▸ hset) hmembers rfl, hget]

/-- What has been stored may be something else, and all members are read as before. -/
theorem Slot.members_store (h : Slot fields key trailing value get store) (y : β) {first : Bool}
    (hset : (get c).isSome) :
    members fields first (store y c) s =
      (members fields first c s).map (Prod.map (store y) id) := by
  induction hl : s.length using Nat.strongRecOn generalizing first c s with
  | ind l ih =>
    subst hl
    rw [members_eq, members_eq]
    rcases hstands : stands (nextKey first s) with - | ⟨- | -, r⟩
    · rfl
    · rfl
    simp only [Option.bind_some, if_true]
    rcases hkey : found (quotedText r) with - | ⟨key', r₁⟩
    · rfl
    simp only [Option.bind_some, h.member_store y hset]
    rcases hmember : member fields key' c r₁ with - | ⟨next, r₂⟩
    · rfl
    have hget := h.get_member (.inl hset) hmember
    have hlength : r₂.length < s.length :=
      Nat.lt_of_lt_of_le (Nat.lt_trans (length_lt_of_member hmember) (prop_of_found hkey))
        (length_le_of_stands hstands)
    exact ih _ hlength (hget ▸ hset) rfl

/-- The place of a number in the member with the key, and in what follows that. -/
theorem Slot.place_member (h : Slot fields key trailing value get store)
    (hvalue : HasPlace value word set) {r : List UInt8} (hunset : get c = none)
    (hmember : member fields key c s = some (next, r))
    (hmembers : members fields false next r = some (last, rest)) (hget : get last = some y)
    (hword : word y = some w) :
    ∃ before after, before ≠ [] ∧
      Place (fun s ↦ (member fields key c s).bind fun t ↦ members fields false t.1 t.2)
        (fun w' ↦ store (set w' y) last) w s rest before after := by
  have hisSet : (Field.of key trailing value get store).isSet c = false := by
    simp [Field.of, hunset]
  obtain ⟨⟨_, r₁⟩, hcolon, hread⟩ := Option.bind_eq_some_iff.1 hmember
  simp only [h.find?_eq, hisSet, Bool.false_eq_true, if_false] at hread
  obtain ⟨y₀, hfound, rfl⟩ := exists_of_found_read_of hread
  have hset : (get (store y₀ c)).isSome := by rw [h.get_store, Option.isSome_some]
  have hy : y₀ = y := by
    rw [h.get_members hset hmembers, h.get_store] at hget
    exact Option.some.inj hget
  subst hy
  obtain ⟨taken, rfl, htaken⟩ :=
    localAt_members h.localFields false (store y₀ c) r last rest hmembers
  obtain ⟨before, after, hplace⟩ := hvalue hfound hword
  have hbehind := Place.bind (g := fun y r ↦ members fields false (store y c) r)
    (k := fun w' ↦ store (set w' y₀) last) hplace fun w' rest' hhead ↦ by
      rw [← h.store_store y₀ (set w' y₀) c, h.members_store _ hset, htaken rest' hhead]
      rfl
  obtain ⟨before', hbefore', hplace'⟩ := hbehind.colon hcolon
  refine ⟨before', after ++ taken, hbefore', hplace'.congr fun s ↦ ?_⟩
  simp only [member, h.find?_eq, hisSet, Bool.false_eq_true, if_false, found_read_of,
    Option.bind_assoc, Option.bind_some]

/-- The number in a value has its place in the members of a record. -/
theorem Slot.place_members (h : Slot fields key trailing value get store)
    (hvalue : HasPlace value word set) {first : Bool} (hunset : get c = none)
    (hmembers : members fields first c s = some (last, rest)) (hget : get last = some y)
    (hword : word y = some w) :
    ∃ before after, before ≠ [] ∧
      Place (members fields first c) (fun w' ↦ store (set w' y) last) w s rest before after := by
  induction hl : s.length using Nat.strongRecOn generalizing first c s with
  | ind l ih =>
    subst hl
    obtain rfl | ⟨r, key', r₁, next, r₂, hstands, hkey, hmember, hmembers, hlength⟩ :=
      members_cases hmembers
    · cases hunset.symm.trans hget
    -- the place in what stands behind the key
    obtain ⟨before, after, hbefore, hplace⟩ : ∃ before after, before ≠ [] ∧
        Place (fun r ↦ (member fields key' c r).bind fun t ↦ members fields false t.1 t.2)
          (fun w' ↦ store (set w' y) last) w r₁ rest before after := by
      by_cases hsame : key' = key
      · subst hsame
        exact h.place_member hvalue hunset hmember hmembers hget hword
      · have hnone : get next = none := (h.get_member (.inr hsame) hmember).trans hunset
        obtain ⟨before, after, hbefore, hplace⟩ := ih _ hlength hnone hmembers rfl
        obtain ⟨before', hbefore', hplace'⟩ := Place.bind_left (g := members fields false) hplace
          hbefore (localAt_member h.localFields key' c r₁) hmember
        exact ⟨before', after, hbefore', hplace'⟩
    obtain ⟨before₁, hbefore₁, hplace₁⟩ := Place.bind_left
      (g := fun key r ↦ (member fields key c r).bind fun t ↦ members fields false t.1 t.2) hplace
      hbefore (localAt_quotedText r) hkey
    obtain ⟨before₂, hbefore₂, hplace₂⟩ := Place.bind_left
      (g := fun more r ↦ if more then (found (quotedText r)).bind fun q ↦
        (member fields q.1 c q.2).bind fun t ↦ members fields false t.1 t.2
        else some (c, r)) (x := true) (hplace₁.congr fun s ↦ if_pos rfl) hbefore₁
      (localAt_nextKey first s) hstands
    exact ⟨before₂, after, hbefore₂, hplace₂.congr fun s ↦ members_eq first c s⟩

/-! ### Fields in a row -/

theorem get_listed {fields : List (Field σ)} (h : ∀ field ∈ fields, field.Apart get store)
    {first : Bool} (hlisted : listed fields first c s = some (last, rest)) : get last = get c := by
  induction fields generalizing first c s with
  | nil =>
    obtain ⟨p, -, hp⟩ := Option.bind_eq_some_iff.1 hlisted
    obtain ⟨rfl, -⟩ := Prod.mk.inj (Option.some.inj hp)
    rfl
  | cons field fields ih =>
    obtain rfl | ⟨r, next, r₁, -, hread, hlisted⟩ := listed_cases hlisted
    · rfl
    · rw [ih (fun g hg ↦ h g (List.mem_cons_of_mem _ hg)) hlisted,
        (h field List.mem_cons_self).get_read hread]

theorem listed_store {fields : List (Field σ)} (h : ∀ field ∈ fields, field.Apart get store)
    (y : β) {first : Bool} :
    listed fields first (store y c) s =
      (listed fields first c s).map (Prod.map (store y) id) := by
  induction fields generalizing first c s with
  | nil =>
    rw [listed, listed, Option.map_bind]
    rfl
  | cons field fields ih =>
    rw [listed, listed, Option.map_bind]
    congr 1
    funext p
    simp only [Function.comp]
    split
    · rw [(h field List.mem_cons_self).read_store]
      rcases found (field.read c p.2) with - | ⟨next, r⟩
      · rfl
      · exact ih fun g hg ↦ h g (List.mem_cons_of_mem _ hg)
    · split <;> rfl

/-- The place of a number in the value of the first field, and in what follows that. -/
theorem place_listed_head {fields : List (Field σ)}
    (hothers : ∀ field ∈ fields, field.Apart get store) (hlocal : LocalFields fields)
    (hstore : ∀ y c, get (store y c) = some y)
    (hagain : ∀ y y' c, store y' (store y c) = store y' c)
    (hvalue : HasPlace value word set) {first : Bool} (hunset : get c = none)
    (hlisted : listed (.of key trailing value get store :: fields) first c s = some (last, rest))
    (hget : get last = some y) (hword : word y = some w) :
    ∃ before after, (first = false → before ≠ []) ∧
      Place (listed (.of key trailing value get store :: fields) first c)
        (fun w' ↦ store (set w' y) last) w s rest before after := by
  obtain rfl | ⟨r, next, r₁, hstands, hread, hlisted⟩ := listed_cases hlisted
  · cases hunset.symm.trans hget
  obtain ⟨y₀, hfound, rfl⟩ := exists_of_found_read_of hread
  have hy : y₀ = y := by
    rw [get_listed hothers hlisted, hstore] at hget
    exact Option.some.inj hget
  subst hy
  obtain ⟨taken, rfl, htaken⟩ := localAt_listed hlocal false (store y₀ c) r₁ last rest hlisted
  obtain ⟨before, after, hplace⟩ := hvalue hfound hword
  have hbehind := Place.bind (g := fun y r ↦ listed fields false (store y c) r)
    (k := fun w' ↦ store (set w' y₀) last) hplace fun w' rest' hhead ↦ by
      rw [← hagain y₀ (set w' y₀) c, listed_store hothers, htaken rest' hhead]
      rfl
  obtain ⟨skipped, rfl, hskipped, ⟨b, hb, hstart⟩, hitem⟩ := exists_of_stands_nextItem hstands
  obtain ⟨t, rfl⟩ := List.head?_eq_some_iff.1 (Option.mem_def.1 hb)
  refine ⟨skipped ++ before, after ++ taken, fun hfirst ↦ by simp [hskipped hfirst],
    hbehind.append_left skipped fun w' rest' _ ↦ ?_⟩
  -- with another number in its place an item still starts there
  obtain ⟨d, t', hd, hdigit⟩ := hbehind.exists_eq_cons w' rest'
  have hstart' : StartsItem (d :: t') := by
    refine ⟨d, rfl, ?_⟩
    rcases hdigit with rfl | hdigit
    · exact hstart
    · exact ⟨(of_isDigit hdigit).1, (of_isDigit hdigit).2.1⟩
  rw [hd, listed, hitem _ hstart']
  simp only [Option.bind_some, if_true, found_read_of, Option.bind_assoc]

/-- The number in a value has its place in a row of fields. -/
theorem place_listed {front back : List (Field σ)}
    (hothers : ∀ field ∈ front ++ back, field.Apart get store)
    (hlocal : LocalFields (front ++ .of key trailing value get store :: back))
    (hstore : ∀ y c, get (store y c) = some y)
    (hagain : ∀ y y' c, store y' (store y c) = store y' c)
    (hvalue : HasPlace value word set) {first : Bool} (hunset : get c = none)
    (hlisted : listed (front ++ .of key trailing value get store :: back) first c s =
      some (last, rest)) (hget : get last = some y) (hword : word y = some w) :
    ∃ before after, (first = false → before ≠ []) ∧
      Place (listed (front ++ .of key trailing value get store :: back) first c)
        (fun w' ↦ store (set w' y) last) w s rest before after := by
  induction front generalizing first c s with
  | nil =>
    exact place_listed_head hothers (fun g hg ↦ hlocal g (List.mem_cons_of_mem _ hg)) hstore hagain
      hvalue hunset hlisted hget hword
  | cons field front ih =>
    obtain rfl | ⟨r, next, r₁, hstands, hread, hlisted⟩ := listed_cases hlisted
    · cases hunset.symm.trans hget
    have hnone : get next = none :=
      ((hothers field List.mem_cons_self).get_read hread).trans hunset
    obtain ⟨before, after, hbefore, hplace⟩ := ih
      (fun g hg ↦ hothers g (List.mem_cons_of_mem _ hg))
      (fun g hg ↦ hlocal g (List.mem_cons_of_mem _ hg)) hnone hlisted
    obtain ⟨before₁, hbefore₁, hplace₁⟩ := Place.bind_left
      (g := listed (front ++ .of key trailing value get store :: back) false) hplace (hbefore rfl)
      (hlocal field List.mem_cons_self c r) hread
    obtain ⟨before₂, hbefore₂, hplace₂⟩ := Place.bind_left (x := true)
      (g := fun more r ↦ if more then (found (field.read c r)).bind fun q ↦
        listed (front ++ .of key trailing value get store :: back) false q.1 q.2
        else if (field :: (front ++ .of key trailing value get store :: back)).all (·.trailing)
        then some (c, r) else none) (hplace₁.congr fun s ↦ if_pos rfl) hbefore₁
      (localAt_nextItem first s) hstands
    exact ⟨before₂, after, fun _ ↦ hbefore₂, hplace₂⟩

/-! ### Records -/

/-- The number in a value has its place in a record, behind the opening of that. -/
theorem Slot.place_recordAt (h : Slot fields key trailing value get store)
    (hvalue : HasPlace value word set) {b : UInt8} {start : σ} (hstart : get start = none)
    (hrecord : recordAt fields start (b :: s) = some (last, rest)) (hget : get last = some y)
    (hword : word y = some w) :
    ∃ before after, Place (recordAt fields start) (fun w' ↦ store (set w' y) last) w (b :: s) rest
      (b :: before) after := by
  rw [recordAt] at hrecord
  split at hrecord
  next hlist =>
    obtain ⟨front, back, rfl, hothers⟩ := h.exists_split
    obtain ⟨before, after, -, hplace⟩ := place_listed (fun field hfield ↦ (hothers field hfield).2)
      h.localFields h.get_store h.store_store hvalue hstart hrecord hget hword
    exact ⟨before, after, hplace.append_left [b] fun w' rest' _ ↦ if_pos hlist⟩
  next hlist =>
    split at hrecord
    next hopen =>
      obtain ⟨before, after, -, hplace⟩ := h.place_members hvalue hstart hrecord hget hword
      exact ⟨before, after, hplace.append_left [b] fun w' rest' _ ↦
        (if_neg hlist).trans (if_pos hopen)⟩
    · cases hrecord

/-- The number in a value has its place in a record, if what is made of the record has the value
alone in it. -/
theorem Slot.hasPlace (h : Slot fields key trailing value get store)
    (hvalue : HasPlace value word set) {start : σ} {finish : σ → Option α}
    {word' : α → Option UInt32} {set' : UInt32 → α → α} (hstart : get start = none)
    (hfinish : ∀ {last x w}, finish last = some x → word' x = some w →
      ∃ y, get last = some y ∧ word y = some w ∧
        ∀ w', finish (store (set w' y) last) = some (set' w' x)) :
    HasPlace (record fields start finish) word' set' := by
  intro s rest x w hfound hword
  rw [found_record] at hfound
  obtain ⟨⟨last, r⟩, hrecord, hx⟩ := Option.bind_eq_some_iff.1 hfound
  obtain ⟨x', hlast, hx⟩ := Option.bind_eq_some_iff.1 hx
  obtain ⟨rfl, rfl⟩ := Prod.mk.inj (Option.some.inj hx)
  obtain ⟨y, hget, hy, hset⟩ := hfinish hlast hword
  obtain ⟨blanks, hblanks, hs⟩ := exists_blanks s
  rcases hdrop : s.dropWhile isBlank with - | ⟨b, t⟩
  · rw [hdrop] at hrecord
    cases hrecord
  have hb := isBlank_of_dropWhile_eq_cons hdrop
  rw [hdrop] at hrecord hs
  obtain ⟨before, after, hplace⟩ := h.place_recordAt hvalue hstart hrecord hget hy
  have hread := Place.bind (g := fun last r ↦ (finish last).bind fun x ↦ some (x, r))
    (k := (set' · x')) (show Place _ _ _ _ ([] ++ r) _ _ from hplace)
    fun w' rest' _ ↦ by simp only [hset, Option.bind_some, List.nil_append]
  rw [List.append_nil] at hread
  have hwhole : Place (fun s ↦ found (record fields start finish s)) (set' · x') w
      (blanks ++ b :: t) r (blanks ++ b :: before) after :=
    hread.append_left _ fun w' rest' _ ↦ by
      rw [found_record, List.cons_append, dropWhile_blanks hblanks hb]
  rw [hs] at hwhole
  exact ⟨_, _, hwhole⟩

theorem skipsBlanks_record {start : σ} {finish : σ → Option α} :
    SkipsBlanks (record fields start finish) := fun s ↦ by
  rw [found_record, found_record, List.dropWhile_idempotent]

end Slot

end SourceChain.Json.Reader
