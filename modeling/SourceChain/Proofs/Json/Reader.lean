import SourceChain.Proofs.Json.Numeral

/-!
# Values read back as they were written

A reader reads a written value back if it takes exactly the octets of the value, whatever stands
behind them, as long as that does not go on with a number (`Reader.Reads`). Each reader for a shape
does so for the values of that shape, if its parts do.

A record is read member by member. What its fields collect from the members is the relation
`Collects`, which leaves the octets out; so a record reads back if its members collect what it
stands for (`Reader.Reads.record`).
-/

namespace SourceChain.Json

variable {α σ : Type} {n : Nat}

/-! ### First octets -/

/-- The octets of a written value. -/
def written (v : Value) : List UInt8 :=
  octetsOfChars v.chars

theorem skipBlanks_cons {b : UInt8} (h : isBlank b = false) (r : List UInt8) :
    skipBlanks (b :: r) = ⟨b :: r, Nat.le_refl _⟩ := by
  refine Subtype.ext ?_
  show (b :: r).dropWhile isBlank = b :: r
  rw [List.dropWhile_cons_of_neg (by simp [h])]

/-- The characters that a value can start with. -/
def valueStarts : List Char :=
  ['n', 't', 'f', '"', '[', '\x7b', '-', '0', '1', '2', '3', '4', '5', '6', '7', '8', '9']

theorem digitChar_mem_valueStarts {d : Nat} (h : d < 10) :
    d.digitChar ∈ valueStarts ∧ d.digitChar ≠ 'n' := by
  decide +revert

theorem octet_of_mem_valueStarts {c : Char} (h : c ∈ valueStarts) : c.toNat < 128 ∧
    isBlank (octet c) = false ∧ octet c ≠ closeList ∧ (octet c = octet 'n' → c = 'n') := by
  have hall : valueStarts.all (fun c ↦ decide (c.toNat < 128 ∧ isBlank (octet c) = false ∧
      octet c ≠ closeList ∧ (octet c = octet 'n' → c = 'n'))) = true := by
    decide
  exact of_decide_eq_true (List.all_eq_true.1 hall c h)

/-- A written integer starts with a sign or a digit. -/
theorem exists_toString_eq_cons (m : Int) :
    ∃ c ∈ valueStarts, c ≠ 'n' ∧ ∃ cs, (toString m).toList = c :: cs := by
  have hnat : ∀ k : Nat, ∃ c ∈ valueStarts, c ≠ 'n' ∧ ∃ cs, k.repr.toList = c :: cs := by
    intro k
    rw [Nat.toList_repr]
    induction k using Nat.strongRecOn with
    | ind k ih =>
      rcases Nat.lt_or_ge k 10 with hk | hk
      · obtain ⟨hmem, hne⟩ := digitChar_mem_valueStarts hk
        exact ⟨_, hmem, hne, [], Nat.toDigits_of_lt_base hk⟩
      -- the first digit stays when the last one is taken off
      · obtain ⟨c, hmem, hne, cs, hcs⟩ := ih (k / 10) (by omega)
        refine ⟨c, hmem, hne, cs ++ [(k % 10).digitChar], ?_⟩
        rw [Nat.toDigits_of_base_le (by decide) hk, hcs, List.cons_append]
  cases m with
  | ofNat k => exact hnat k
  | negSucc k =>
    refine ⟨'-', by decide, by decide, (k + 1).repr.toList, ?_⟩
    show ("-" ++ (k + 1).repr).toList = _
    rw [String.toList_append]
    rfl

theorem exists_chars_eq_cons (v : Value) :
    ∃ c ∈ valueStarts, (c = 'n' → v = .null) ∧ ∃ cs, v.chars = c :: cs := by
  cases v with
  | null => exact ⟨'n', by decide, fun _ ↦ rfl, _, Value.chars.eq_1⟩
  | flag b => cases b <;> simp [Value.chars, valueStarts]
  | integer m =>
    obtain ⟨c, hmem, hne, cs, hcs⟩ := exists_toString_eq_cons m
    exact ⟨c, hmem, fun h ↦ absurd h hne, cs, by rw [Value.chars, hcs]⟩
  | decimal m scale =>
    obtain ⟨c, hmem, hne, cs, hcs⟩ := exists_toString_eq_cons m
    refine ⟨c, hmem, fun h ↦ absurd h hne, cs ++ ['e', '-'] ++ (toString scale).toList, ?_⟩
    rw [Value.chars, hcs]
    rfl
  | text s => simp [Value.chars, quotedChars, valueStarts]
  | list items => cases items <;> simp [Value.chars, valueStarts]
  | record members => cases members <;> simp [Value.chars, valueStarts]

/-- A written value starts with an octet that is no blank and closes no list, and only null starts
like null. -/
theorem exists_written_eq_cons (v : Value) :
    ∃ b r, written v = b :: r ∧ isBlank b = false ∧ b ≠ closeList ∧ (b = octet 'n' → v = .null) := by
  obtain ⟨c, hmem, hnull, cs, hcs⟩ := exists_chars_eq_cons v
  obtain ⟨hc, hblank, hclose, hn⟩ := octet_of_mem_valueStarts hmem
  refine ⟨octet c, octetsOfChars cs, ?_, hblank, hclose, fun h ↦ hnull (hn h)⟩
  rw [written, hcs, octetsOfChars_cons_of_lt hc]

namespace Reader

/-- Whether a reader takes the written form of a value as `x`, whatever stands behind it. -/
def Reads (reader : Reader α) (x : α) (v : Value) : Prop :=
  ∀ rest, EndsNumeral rest → ∃ h, reader (written v ++ rest) = .ok (x, ⟨rest, h⟩)

/-! ### Plain values -/

theorem reads_text (s : String) : Reads text s (.text s) := by
  intro rest _
  obtain ⟨hlength, hquoted⟩ := quotedText_escaped s rest
  have hwritten : written (.text s) ++ rest =
      quote :: (octetsOfChars (s.toList.flatMap escapeChar) ++ quote :: rest) := by
    rw [written, Value.chars, quotedChars, List.cons_append, octetsOfChars_cons_of_lt (by decide),
      octetsOfChars_append, octetsOfChars_cons_of_lt (by decide), octetsOfChars_nil,
      List.cons_append, List.append_assoc]
    rfl
  rw [hwritten]
  refine ⟨Nat.lt_succ_of_lt hlength, ?_⟩
  simp only [text, skipBlanks_cons (show isBlank quote = false by decide), if_true, hquoted]

theorem written_integer (n : Nat) : written (.integer n) = decimalOctets n := by
  rw [written, Value.chars, decimalOctets, ← Nat.toList_repr]
  rfl

theorem reads_word32 (m : UInt32) : Reads word32 m (.integer m.toNat) := by
  intro rest hrest
  have hwritten := written_integer m.toNat
  obtain ⟨b, r, hr, hblank, -⟩ := exists_written_eq_cons (.integer m.toNat)
  have hdigit : isDigit b = true := by
    have hmem : b ∈ decimalOctets m.toNat := by
      rw [← hwritten, hr]
      exact List.mem_cons_self
    exact isDigit_of_mem_decimalOctets b hmem
  have hstart : startsNumber b = true := by rw [startsNumber, hdigit, Bool.or_true]
  have hlt : m.toNat < UInt64.size := Nat.lt_trans m.toNat_lt (by decide)
  have hnumeral := numeral_decimalOctets hlt hrest
  rw [← hwritten, hr, List.cons_append] at hnumeral
  obtain ⟨hlength, hnumeral⟩ := hnumeral
  rw [hr, List.cons_append]
  refine ⟨hlength, ?_⟩
  rw [word32]
  simp only [skipBlanks_cons hblank, hstart, if_true, hnumeral, UInt32.ofNat_toNat]
  exact if_pos m.toNat_lt

variable {item : Reader α}

theorem reads_optional_none : Reads (optional item) none .null := by
  intro rest _
  have hwritten : written .null ++ rest =
      octet 'n' :: octet 'u' :: octet 'l' :: octet 'l' :: rest := by
    rw [written, Value.chars]
    rfl
  have hlength : rest.length ≤ (octet 'u' :: octet 'l' :: octet 'l' :: rest).length := by
    simp only [List.length_cons]
    omega
  have hkeyword : keyword ['u', 'l', 'l'] (octet 'u' :: octet 'l' :: octet 'l' :: rest) =
      .ok ⟨rest, hlength⟩ :=
    rfl
  rw [hwritten]
  refine ⟨Nat.lt_succ_of_le hlength, ?_⟩
  rw [optional]
  simp only [skipBlanks_cons (show isBlank (octet 'n') = false by decide), if_true, hkeyword]

/-- A value that is not null is read as it is. -/
theorem Reads.optional_some {x : α} {v : Value} (h : Reads item x v) (hnull : v ≠ .null) :
    Reads (optional item) (some x) v := by
  intro rest hrest
  have hitem := h rest hrest
  obtain ⟨b, r, hr, hblank, -, hn⟩ := exists_written_eq_cons v
  have hb : b ≠ octet 'n' := fun hb ↦ hnull (hn hb)
  rw [hr, List.cons_append] at hitem ⊢
  obtain ⟨hlength, hitem⟩ := hitem
  refine ⟨hlength, ?_⟩
  rw [Reader.optional]
  simp only [skipBlanks_cons hblank, if_neg hb, hitem]

theorem Reads.optional {value : α → Value} {o : Option α}
    (h : ∀ x ∈ o, Reads item x (value x)) (hnull : ∀ x, value x ≠ .null) :
    Reads (Reader.optional item) o (Value.ofOption value o) := by
  cases o with
  | none => exact reads_optional_none
  | some x => exact (h x rfl).optional_some (hnull x)

/-! ### Lists -/

theorem endsNumeral_cons {b : UInt8} (h : b = comma ∨ b = closeList ∨ b = closeRecord)
    (r : List UInt8) : EndsNumeral (b :: r) := by
  intro c hc
  obtain rfl := Option.some.inj hc
  rcases h with rfl | rfl | rfl <;> decide

theorem octetsOfChars_itemsChars_nil : octetsOfChars (Value.itemsChars []) = [closeList] := by
  rw [Value.itemsChars]
  rfl

theorem octetsOfChars_itemsChars_cons (v : Value) (vs : List Value) :
    octetsOfChars (Value.itemsChars (v :: vs)) =
      comma :: (written v ++ octetsOfChars (Value.itemsChars vs)) := by
  rw [Value.itemsChars, List.cons_append, octetsOfChars_cons_of_lt (by decide),
    octetsOfChars_append]
  rfl

theorem endsNumeral_itemsChars (vs : List Value) (rest : List UInt8) :
    EndsNumeral (octetsOfChars (Value.itemsChars vs) ++ rest) := by
  cases vs with
  | nil =>
    rw [octetsOfChars_itemsChars_nil]
    exact endsNumeral_cons (.inr (.inl rfl)) rest
  | cons v vs =>
    rw [octetsOfChars_itemsChars_cons]
    exact endsNumeral_cons (.inl rfl) _

theorem length_lt_itemsChars (vs : List Value) (rest : List UInt8) :
    rest.length < (octetsOfChars (Value.itemsChars vs) ++ rest).length := by
  cases vs with
  | nil =>
    rw [octetsOfChars_itemsChars_nil]
    exact Nat.lt_succ_self _
  | cons v vs =>
    rw [octetsOfChars_itemsChars_cons, List.length_append, List.length_cons]
    omega

/-- An item that stands next is read. -/
theorem itemsFrom_item {first : Bool} {s body : List UInt8} {hbody : body.length ≤ s.length}
    (hnext : nextItem first s = .ok (.item ⟨body, hbody⟩)) {x : α} {rest : List UInt8}
    {hrest : rest.length < body.length} (hitem : item body = .ok (x, ⟨rest, hrest⟩))
    (done : List α) (h : s.length ≤ n) (h' : rest.length ≤ n) :
    itemsFrom item n first done s h = itemsFrom item n false (x :: done) rest h' := by
  rw [itemsFrom, hnext]
  simp only [hitem]

theorem nextItem_first (v : Value) (r : List UInt8) :
    nextItem true (written v ++ r) = .ok (.item ⟨written v ++ r, Nat.le_refl _⟩) := by
  obtain ⟨b, bs, hb, hblank, hclose, -⟩ := exists_written_eq_cons v
  rw [hb, List.cons_append]
  simp only [nextItem, skipBlanks_cons hblank, if_neg hclose, if_true]

theorem nextItem_comma (v : Value) (r : List UInt8) :
    nextItem false (comma :: (written v ++ r)) =
      .ok (.item ⟨written v ++ r, Nat.le_succ _⟩) := by
  have hcomma : comma ≠ closeList := by decide
  obtain ⟨b, bs, hb, hblank, hclose, -⟩ := exists_written_eq_cons v
  rw [hb, List.cons_append]
  simp only [nextItem, skipBlanks_cons (show isBlank comma = false by decide), if_neg hcomma,
    Bool.false_eq_true, if_false, if_true, skipBlanks_cons hblank, if_neg hclose]

theorem nextItem_closed (first : Bool) (r : List UInt8) :
    nextItem first (closeList :: r) = .ok (.closed ⟨r, Nat.lt_succ_self _⟩) := by
  simp only [nextItem, skipBlanks_cons (show isBlank closeList = false by decide), if_true]

theorem itemsFrom_closed (first : Bool) (done : List α) (rest : List UInt8)
    (h : (closeList :: rest).length ≤ n) :
    itemsFrom item n first done (closeList :: rest) h = .ok (done.reverse, ⟨rest, h⟩) := by
  rw [itemsFrom, nextItem_closed]

/-- Reading the items after the first gives them back behind those read before. -/
theorem itemsFrom_itemsChars {value : α → Value} {xs : List α}
    (hxs : ∀ x ∈ xs, Reads item x (value x)) (done : List α) (rest : List UInt8)
    (h : (octetsOfChars (Value.itemsChars (xs.map value)) ++ rest).length ≤ n)
    (h' : rest.length < n) :
    itemsFrom item n false done (octetsOfChars (Value.itemsChars (xs.map value)) ++ rest) h =
      .ok (done.reverse ++ xs, ⟨rest, h'⟩) := by
  induction xs generalizing done with
  | nil =>
    simp only [List.map_nil, octetsOfChars_itemsChars_nil, List.cons_append, List.nil_append,
      itemsFrom_closed, List.append_nil]
  | cons x xs ih =>
    obtain ⟨hlength, hitem⟩ := hxs x List.mem_cons_self _ (endsNumeral_itemsChars (xs.map value) rest)
    simp only [List.map_cons, octetsOfChars_itemsChars_cons, List.cons_append,
      List.append_assoc] at h ⊢
    rw [itemsFrom_item (nextItem_comma (value x) _) hitem done h
      (Nat.le_of_lt (Nat.lt_of_lt_of_le hlength (Nat.le_of_succ_le h))),
      ih (fun y hy ↦ hxs y (List.mem_cons_of_mem x hy)), List.reverse_cons, List.append_assoc]
    rfl

/-- A list is read back if its items are. -/
theorem reads_list {value : α → Value} {xs : List α} (hxs : ∀ x ∈ xs, Reads item x (value x)) :
    Reads (list item) xs (.list (xs.map value)) := by
  have hstart : isBlank openList = false := by decide
  intro rest _
  cases xs with
  | nil =>
    have hwritten : written (.list []) ++ rest = openList :: closeList :: rest := by
      rw [written, Value.chars]
      rfl
    rw [List.map_nil, hwritten]
    refine ⟨Nat.lt_succ_of_lt (Nat.lt_succ_self _), ?_⟩
    simp only [list, skipBlanks_cons hstart, if_true, itemsFrom_closed]
    rfl
  | cons x xs =>
    have hwritten : written (.list ((x :: xs).map value)) ++ rest =
        openList :: (written (value x) ++
          (octetsOfChars (Value.itemsChars (xs.map value)) ++ rest)) := by
      rw [written, List.map_cons, Value.chars, List.cons_append,
        octetsOfChars_cons_of_lt (by decide), octetsOfChars_append, List.cons_append,
        List.append_assoc]
      rfl
    obtain ⟨hlength, hitem⟩ := hxs x List.mem_cons_self _ (endsNumeral_itemsChars (xs.map value) rest)
    have hrest := length_lt_itemsChars (xs.map value) rest
    rw [hwritten]
    refine ⟨Nat.lt_succ_of_lt (Nat.lt_trans hrest hlength), ?_⟩
    simp only [list, skipBlanks_cons hstart, if_true]
    rw [itemsFrom_item (nextItem_first (value x) _) hitem [] (Nat.le_refl _) (Nat.le_of_lt hlength),
      itemsFrom_itemsChars (fun y hy ↦ hxs y (List.mem_cons_of_mem x hy)) _ rest _
        (Nat.lt_trans hrest hlength)]
    rfl

/-! ### Records -/

/-- What fields collect from members that are in no wrong place: each member belongs to a field that
has not been read yet, and reads back there. -/
inductive Collects (fields : List (Field σ)) : σ → List (String × Value) → σ → Prop
  | nil (collected : σ) : Collects fields collected [] collected
  | cons {collected next last : σ} {field : Field σ} {key : String} {v : Value}
      {members : List (String × Value)} (hfield : fields.find? (·.key == key) = some field)
      (hunset : field.isSet collected = false) (hreads : Reads (field.read collected) next v)
      (hrest : Collects fields next members last) :
      Collects fields collected ((key, v) :: members) last

variable {fields : List (Field σ)}

theorem Collects.append {collected next last : σ} {members others : List (String × Value)}
    (h : Collects fields collected members next) (h' : Collects fields next others last) :
    Collects fields collected (members ++ others) last := by
  induction h with
  | nil collected => exact h'
  | cons hfield hunset hreads _ ih => exact .cons hfield hunset hreads (ih h')

section Field

variable {reader : Reader α} {key : String} {trailing : Bool} {get : σ → Option α}
  {store : α → σ → σ} {collected : σ}

theorem Reads.field {x : α} {v : Value} (h : Reads reader x v) :
    Reads ((Field.of key trailing reader get store).read collected) (store x collected) v := by
  intro rest hrest
  obtain ⟨hlength, hread⟩ := h rest hrest
  refine ⟨hlength, ?_⟩
  simp only [Field.of, hread]

/-- One member is collected by its field. -/
theorem Reads.collects {x : α} {v : Value} (h : Reads reader x v)
    (hfield : fields.find? (·.key == key) = some (.of key trailing reader get store))
    (hunset : get collected = none) {next : σ} (hnext : store x collected = next) :
    Collects fields collected [(key, v)] next := by
  subst hnext
  refine .cons hfield ?_ h.field (.nil _)
  simp [Field.of, hunset]

end Field

theorem octetsOfChars_membersChars_nil : octetsOfChars (Value.membersChars []) = [closeRecord] := by
  rw [Value.membersChars]
  rfl

/-- The octets of a member behind the opening quote of its key. -/
def memberOctets (key : String) (v : Value) (rest : List UInt8) : List UInt8 :=
  octetsOfChars (key.toList.flatMap escapeChar) ++ quote :: colon :: (written v ++ rest)

theorem length_lt_memberOctets (key : String) (v : Value) (rest : List UInt8) :
    rest.length < (memberOctets key v rest).length := by
  rw [memberOctets]
  simp only [List.length_append, List.length_cons]
  omega

theorem octetsOfChars_member (key : String) (v : Value) (cs : List Char) (rest : List UInt8) :
    octetsOfChars (quotedChars key ++ ':' :: v.chars ++ cs) ++ rest =
      quote :: memberOctets key v (octetsOfChars cs ++ rest) := by
  have hquote : octetsOfChars ['"'] = [quote] := octetsOfChars_cons_of_lt (by decide) []
  rw [quotedChars, octetsOfChars_append, octetsOfChars_append, List.cons_append,
    octetsOfChars_cons_of_lt (by decide), octetsOfChars_append, hquote,
    octetsOfChars_cons_of_lt (by decide)]
  simp only [List.cons_append, List.append_assoc, List.nil_append]
  rfl

theorem octetsOfChars_membersChars_cons (key : String) (v : Value)
    (members : List (String × Value)) (rest : List UInt8) :
    octetsOfChars (Value.membersChars ((key, v) :: members)) ++ rest =
      comma :: quote :: memberOctets key v (octetsOfChars (Value.membersChars members) ++ rest) := by
  rw [Value.membersChars, ← octetsOfChars_member, List.cons_append, List.cons_append,
    octetsOfChars_cons_of_lt (by decide)]
  rfl

theorem length_lt_membersChars (members : List (String × Value)) (rest : List UInt8) :
    rest.length < (octetsOfChars (Value.membersChars members) ++ rest).length := by
  cases members with
  | nil =>
    rw [octetsOfChars_membersChars_nil]
    exact Nat.lt_succ_self _
  | cons member members =>
    rw [octetsOfChars_membersChars_cons]
    have hmember := length_lt_memberOctets member.1 member.2
      (octetsOfChars (Value.membersChars members) ++ rest)
    simp only [List.length_cons, List.length_append] at hmember ⊢
    omega

theorem endsNumeral_membersChars (members : List (String × Value)) (rest : List UInt8) :
    EndsNumeral (octetsOfChars (Value.membersChars members) ++ rest) := by
  cases members with
  | nil =>
    rw [octetsOfChars_membersChars_nil]
    exact endsNumeral_cons (.inr (.inr rfl)) rest
  | cons member members =>
    rw [octetsOfChars_membersChars_cons]
    exact endsNumeral_cons (.inl rfl) _

theorem skipColon_colon (r : List UInt8) :
    skipColon (colon :: r) = .ok ⟨r, Nat.lt_succ_self _⟩ := by
  simp only [skipColon, skipBlanks_cons (show isBlank colon = false by decide), if_true]

theorem nextKey_first (r : List UInt8) :
    nextKey true (quote :: r) = .ok (.item ⟨r, Nat.le_succ _⟩) := by
  have hquote : quote ≠ closeRecord := by decide
  simp only [nextKey, skipBlanks_cons (show isBlank quote = false by decide), if_neg hquote,
    if_true]

theorem nextKey_comma (r : List UInt8) :
    nextKey false (comma :: quote :: r) = .ok (.item ⟨r, Nat.le_succ_of_le (Nat.le_succ _)⟩) := by
  have hcomma : comma ≠ closeRecord := by decide
  simp only [nextKey, skipBlanks_cons (show isBlank comma = false by decide), if_neg hcomma,
    Bool.false_eq_true, if_false, if_true, skipBlanks_cons (show isBlank quote = false by decide)]

/-- A member that stands next is read into its field. -/
theorem membersFrom_member {first : Bool} {collected next : σ} {field : Field σ} {key : String}
    {v : Value} (hfield : fields.find? (·.key == key) = some field)
    (hunset : field.isSet collected = false) (hreads : Reads (field.read collected) next v)
    {s rest : List UInt8} (hrest : EndsNumeral rest)
    {hbody : (memberOctets key v rest).length ≤ s.length}
    (hnext : nextKey first s = .ok (.item ⟨memberOctets key v rest, hbody⟩))
    (h : s.length ≤ n) (h' : rest.length ≤ n) :
    membersFrom fields n first collected s h = membersFrom fields n false next rest h' := by
  obtain ⟨hkey_length, hkey⟩ := quotedText_escaped key (colon :: (written v ++ rest))
  obtain ⟨hlength, hread⟩ := hreads rest hrest
  rw [membersFrom, hnext]
  simp only [memberOctets, hkey, hfield, hunset, Bool.false_eq_true, if_false, skipColon_colon, hread]

theorem membersFrom_closed (first : Bool) (collected : σ) (rest : List UInt8)
    (h : (closeRecord :: rest).length ≤ n) :
    membersFrom fields n first collected (closeRecord :: rest) h = .ok (collected, ⟨rest, h⟩) := by
  have hnext : nextKey first (closeRecord :: rest) = .ok (.closed ⟨rest, Nat.lt_succ_self _⟩) := by
    simp only [nextKey, skipBlanks_cons (show isBlank closeRecord = false by decide), if_true]
  rw [membersFrom, hnext]

/-- What fields collect is what is read from the members after the first. -/
theorem membersFrom_membersChars {collected last : σ} {members : List (String × Value)}
    (hcollects : Collects fields collected members last) (rest : List UInt8)
    (h : (octetsOfChars (Value.membersChars members) ++ rest).length ≤ n) (h' : rest.length < n) :
    membersFrom fields n false collected (octetsOfChars (Value.membersChars members) ++ rest) h =
      .ok (last, ⟨rest, h'⟩) := by
  -- the induction is on what is collected, and each member is one round of the loop
  induction hcollects with
  | nil collected =>
    simp only [octetsOfChars_membersChars_nil, List.cons_append, List.nil_append,
      membersFrom_closed]
  | @cons collected next last field key v members hfield hunset hreads _ ih =>
    have hmember := length_lt_memberOctets key v (octetsOfChars (Value.membersChars members) ++ rest)
    simp only [octetsOfChars_membersChars_cons] at h ⊢
    have hmore : (octetsOfChars (Value.membersChars members) ++ rest).length ≤ n := by
      simp only [List.length_cons] at h
      omega
    rw [membersFrom_member hfield hunset hreads (endsNumeral_membersChars members rest)
      (nextKey_comma _) h hmore]
    exact ih hmore

/-- A record is read back if its members collect what it stands for. -/
theorem Collects.reads_record {start last : σ} {members : List (String × Value)}
    (hcollects : Collects fields start members last) {finish : σ → Option α} {x : α}
    (hfinish : finish last = some x) :
    Reads (record fields start finish) x (.record members) := by
  have hstart : isBlank openRecord = false := by decide
  have hopen : openRecord ≠ openList := by decide
  intro rest _
  cases hcollects with
  | nil =>
    have hwritten : written (.record []) ++ rest = openRecord :: closeRecord :: rest := by
      rw [written, Value.chars]
      rfl
    rw [hwritten]
    refine ⟨Nat.lt_succ_of_lt (Nat.lt_succ_self _), ?_⟩
    simp only [record, skipBlanks_cons hstart, if_neg hopen, if_true, membersFrom_closed, hfinish]
  | @cons _ next _ field key v members hfield hunset hreads hcollects =>
    have hwritten : written (.record ((key, v) :: members)) ++ rest =
        openRecord :: quote ::
          memberOctets key v (octetsOfChars (Value.membersChars members) ++ rest) := by
      rw [written, Value.chars, ← octetsOfChars_member, List.cons_append, List.cons_append,
        octetsOfChars_cons_of_lt (by decide)]
      rfl
    have hrest := length_lt_membersChars members rest
    have hmember := length_lt_memberOctets key v (octetsOfChars (Value.membersChars members) ++ rest)
    have hmore : (octetsOfChars (Value.membersChars members) ++ rest).length ≤ (openRecord ::
        quote :: memberOctets key v (octetsOfChars (Value.membersChars members) ++ rest)).length :=
      Nat.le_succ_of_le (Nat.le_succ_of_le (Nat.le_of_lt hmember))
    have hlength := Nat.lt_of_lt_of_le hrest hmore
    rw [hwritten]
    refine ⟨hlength, ?_⟩
    simp only [record, skipBlanks_cons hstart, if_neg hopen, if_true]
    rw [membersFrom_member hfield hunset hreads (endsNumeral_membersChars members rest)
      (nextKey_first _) _ hmore,
      membersFrom_membersChars hcollects rest _ hlength]
    simp only [hfinish]

/-- Reading the text of a value that reads back gives what it stands for. -/
theorem Reads.decode_render {reader : Reader α} {x : α} {v : Value} (h : Reads reader x v) :
    decode reader (octetsOf v.render) = .ok x := by
  have hread := h [] (by simp [EndsNumeral])
  rw [List.append_nil] at hread
  obtain ⟨hlength, hread⟩ := hread
  have hend : (skipBlanks []).val = [] := rfl
  rw [Value.render, octetsOf_ofList, decode, ← written, hread]
  simp only [hend, if_true]

end Reader

end SourceChain.Json
