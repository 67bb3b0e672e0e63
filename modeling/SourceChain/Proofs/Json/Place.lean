import Mathlib.Data.List.DropRight
import SourceChain.Proofs.Json.Word

/-!
# A number may give way to any other

A reader that reads a number somewhere in a text reads any other number that stands in its place,
and nothing else that it reads changes (`HasPlace`). So nothing in a reader asks what the number is.
A place lies in the octets that are taken (`Place`); what is read in front of it stays as it is if
that is local (`Place.bind_left`), and so does what is read behind it (`Place.bind`).

For a whole text that is said in characters (`HasPlace.exists_text`): the number that is read from
it is zero exactly if a zero stands where any number may stand (`HasPlace.one_le_iff`).
-/

namespace SourceChain.Json.Reader

variable {α β : Type}

/-! ### Places -/

/-- A number stands in what is read, between `before` and `after`: whichever number is put there,
what is found is `f` of it. -/
structure Place (scan : List UInt8 → Option (α × List UInt8)) (f : UInt32 → α) (w : UInt32)
    (s rest before after : List UInt8) : Prop where
  /-- The number that stands there. -/
  split : s = before ++ (decimalOctets w.toNat ++ (after ++ rest))
  /-- Any number may stand there. -/
  scan_eq : ∀ (w' : UInt32) (rest' : List UInt8), rest'.head? = rest.head? →
    scan (before ++ (decimalOctets w'.toNat ++ (after ++ rest'))) = some (f w', rest')

/-- A reader reads the number at `get`, if there is one, from a place of its own. Putting another
there is `set`. -/
def HasPlace (reader : Reader α) (get : α → Option UInt32) (set : UInt32 → α → α) : Prop :=
  ∀ ⦃s rest : List UInt8⦄ ⦃x : α⦄ ⦃w : UInt32⦄, found (reader s) = some (x, rest) → get x = some w →
    ∃ before after, Place (fun s ↦ found (reader s)) (set · x) w s rest before after

theorem endsNumeral_of_head? {s s' : List UInt8} (h : EndsNumeral s) (hhead : s'.head? = s.head?) :
    EndsNumeral s' := fun b hb ↦ h b (hhead ▸ hb)

/-- A digit is no blank, does not end a list and does not start `null`. -/
theorem of_isDigit {d : UInt8} (h : isDigit d = true) :
    isBlank d = false ∧ d ≠ closeList ∧ d ≠ octet 'n' := by
  have hall : ∀ k < 10, isBlank (octet (Nat.digitChar k)) = false ∧
      octet (Nat.digitChar k) ≠ closeList ∧ octet (Nat.digitChar k) ≠ octet 'n' := by decide
  obtain ⟨hlt, hd⟩ := octet_digitChar_of_isDigit h
  exact hd ▸ hall _ hlt

/-- A number starts with a digit. -/
theorem exists_decimalOctets_append_eq_cons (n : Nat) (rest : List UInt8) :
    ∃ d r, decimalOctets n ++ rest = d :: r ∧ isDigit d = true := by
  obtain ⟨d, r, hr, -⟩ := exists_decimalOctets_eq_cons n
  exact ⟨d, r ++ rest, by rw [hr, List.cons_append],
    isDigit_of_mem_decimalOctets d (hr ▸ List.mem_cons_self)⟩

section Place

variable {scan scan' : List UInt8 → Option (α × List UInt8)} {f : UInt32 → α} {w : UInt32}
  {s r rest before after : List UInt8} {x : α}

theorem Place.congr (h : Place scan f w s rest before after) (heq : ∀ s, scan' s = scan s) :
    Place scan' f w s rest before after where
  split := h.split
  scan_eq w' rest' hhead := (heq _).trans (h.scan_eq w' rest' hhead)

/-- Octets may stand in front that are passed over wherever the number is another. -/
theorem Place.append_left (h : Place scan f w s rest before after) (taken : List UInt8)
    (heq : ∀ (w' : UInt32) (rest' : List UInt8), rest'.head? = rest.head? →
      scan' (taken ++ (before ++ (decimalOctets w'.toNat ++ (after ++ rest')))) =
        scan (before ++ (decimalOctets w'.toNat ++ (after ++ rest')))) :
    Place scan' f w (taken ++ s) rest (taken ++ before) after where
  split := by rw [h.split, List.append_assoc]
  scan_eq w' rest' hhead := by
    rw [List.append_assoc, heq w' rest' hhead, h.scan_eq w' rest' hhead]

/-- What is found in a place may be gone on with. -/
theorem Place.bind {g : α → List UInt8 → Option (β × List UInt8)} {k : UInt32 → β}
    {taken : List UInt8} (h : Place scan f w s (taken ++ rest) before after)
    (hg : ∀ (w' : UInt32) (rest' : List UInt8), rest'.head? = rest.head? →
      g (f w') (taken ++ rest') = some (k w', rest')) :
    Place (fun s ↦ (scan s).bind fun p ↦ g p.1 p.2) k w s rest before (after ++ taken) where
  split := by rw [h.split, List.append_assoc]
  scan_eq w' rest' hhead := by
    have hahead : (taken ++ rest').head? = (taken ++ rest).head? := by
      cases taken <;> simp [hhead]
    simp only [List.append_assoc, h.scan_eq w' _ hahead, Option.bind_some, hg w' rest' hhead]

/-- A place may be gone on to, if something stands in front of the number. -/
theorem Place.bind_left {g : α → List UInt8 → Option (β × List UInt8)} {f : UInt32 → β}
    (h : Place (g x) f w r rest before after) (hbefore : before ≠ []) (hlocal : LocalAt scan s)
    (hscan : scan s = some (x, r)) :
    ∃ before', before' ≠ [] ∧
      Place (fun s ↦ (scan s).bind fun p ↦ g p.1 p.2) f w s rest before' after := by
  obtain ⟨taken, rfl, htaken⟩ := hlocal x r hscan
  refine ⟨taken ++ before, by simp [hbefore], h.append_left taken fun w' rest' _ ↦ ?_⟩
  have hahead : ∀ t : List UInt8, (before ++ t).head? = r.head? := by
    intro t
    rw [h.split]
    cases before <;> simp_all
  simp only [htaken _ (hahead _), Option.bind_some]

/-- Nothing has to stand between a colon and the number. -/
theorem Place.colon (h : Place scan f w r rest before after)
    (hcolon : left (skipColon s) = some ((), r)) :
    ∃ before', before' ≠ [] ∧
      Place (fun s ↦ (left (skipColon s)).bind fun p ↦ scan p.2) f w s rest before' after := by
  rw [left_skipColon] at hcolon
  obtain ⟨blanks, hblanks, hs⟩ := exists_blanks s
  rcases hdrop : s.dropWhile isBlank with - | ⟨b, t⟩
  · rw [hdrop] at hcolon
    cases hcolon
  rw [hdrop] at hcolon hs
  rw [afterColon] at hcolon
  split at hcolon
  next hb =>
    obtain ⟨-, rfl⟩ := Prod.mk.inj (Option.some.inj hcolon)
    subst hb
    have hfound : ∀ r, left (skipColon (blanks ++ [colon] ++ r)) = some ((), r) := by
      intro r
      rw [left_skipColon, List.append_assoc, List.singleton_append,
        dropWhile_blanks hblanks (by decide), afterColon, if_pos rfl]
    have hplace : Place (fun s ↦ (left (skipColon s)).bind fun p ↦ scan p.2) f w
        (blanks ++ [colon] ++ t) rest (blanks ++ [colon] ++ before) after :=
      h.append_left _ fun w' rest' _ ↦ by simp only [hfound, Option.bind_some]
    rw [List.append_assoc, List.singleton_append, hs] at hplace
    exact ⟨_, by simp, hplace⟩
  · cases hcolon

/-- Another number leaves the first octet, or has a digit there. -/
theorem Place.exists_eq_cons {b : UInt8} (h : Place scan f w (b :: r) rest before after)
    (w' : UInt32) (rest' : List UInt8) :
    ∃ d r', before ++ (decimalOctets w'.toNat ++ (after ++ rest')) = d :: r' ∧
      (d = b ∨ isDigit d = true) := by
  rcases before with - | ⟨c, before⟩
  · obtain ⟨d, r', hr', hd⟩ := exists_decimalOctets_append_eq_cons w'.toNat (after ++ rest')
    exact ⟨d, r', hr', .inr hd⟩
  · exact ⟨c, _, rfl, .inl (List.cons.inj h.split).1.symm⟩

end Place

/-! ### Numbers by themselves -/

/-- A reader takes the blanks in front as nothing. -/
def SkipsBlanks (reader : Reader α) : Prop :=
  ∀ s, found (reader (s.dropWhile isBlank)) = found (reader s)

theorem skipsBlanks_word32 : SkipsBlanks word32 := fun s ↦ by
  rw [found_word32, found_word32, List.dropWhile_idempotent]

theorem hasPlace_word32 : HasPlace word32 some fun w _ ↦ w := by
  intro s rest x w h hx
  obtain rfl := Option.some.inj hx
  rw [found_word32] at h
  obtain ⟨hdrop, hends⟩ := of_wordAt h
  obtain ⟨blanks, hblanks, hs⟩ := exists_blanks s
  refine ⟨blanks, [], ⟨?_, fun w' rest' hhead ↦ ?_⟩⟩
  · rw [List.nil_append, ← hdrop, hs]
  · have hword := wordAt_decimalOctets w' (endsNumeral_of_head? hends hhead)
    obtain ⟨d, r, hr, hd⟩ := exists_decimalOctets_append_eq_cons w'.toNat rest'
    simp only [List.nil_append, found_word32, hr, dropWhile_blanks hblanks (of_isDigit hd).1,
      ← hword]

theorem localAt_word32 (s : List UInt8) : LocalAt (fun s ↦ found (word32 s)) s := by
  intro w rest h
  obtain ⟨before, after, hplace⟩ := hasPlace_word32 h rfl
  refine ⟨before ++ (decimalOctets w.toNat ++ after), ?_, fun rest' hhead ↦ ?_⟩
  · rw [hplace.split, List.append_assoc, List.append_assoc]
  · rw [List.append_assoc, List.append_assoc]
    exact hplace.scan_eq w rest' hhead

/-! ### Optional values -/

section Optional

variable {item : Reader α}

/-- What is found where a value may be missing. -/
def optionalAt (item : Reader α) : List UInt8 → Option (Option α × List UInt8)
  | [] => none
  | b :: r =>
    if b = octet 'n' then (left (keyword ['u', 'l', 'l'] r)).bind fun p ↦ some (none, p.2)
    else (found (item (b :: r))).bind fun p ↦ some (some p.1, p.2)

theorem found_optional (h : SkipsBlanks item) (s : List UInt8) :
    found (optional item s) = optionalAt item (s.dropWhile isBlank) := by
  have hitem := h s
  rw [← skipBlanks_val] at hitem ⊢
  rw [optional]
  rcases hskip : skipBlanks s with ⟨- | ⟨b, r⟩, hr⟩
  · rfl
  rw [hskip] at hitem
  by_cases hb : b = octet 'n'
  · simp only [optionalAt, if_pos hb]
    rcases keyword ['u', 'l', 'l'] r with e | rest <;> rfl
  · simp only [optionalAt, if_neg hb, hitem]
    rcases item s with e | ⟨x, rest⟩ <;> rfl

theorem localAt_optional (hblanks : SkipsBlanks item)
    (h : ∀ s, LocalAt (fun s ↦ found (item s)) s) (s : List UInt8) :
    LocalAt (fun s ↦ found (optional item s)) s := by
  simp only [found_optional hblanks]
  refine LocalAt.blanks ?_
  rcases s.dropWhile isBlank with - | ⟨b, r⟩
  · exact localAt_none rfl
  by_cases hb : b = octet 'n'
  · exact ((localAt_keyword ['u', 'l', 'l'] r).bind (g := fun _ r ↦ some (none, r))
      fun _ r _ ↦ localAt_some _ r).cons fun r ↦ if_pos hb
  · refine ((h (b :: r)).bind (g := fun x r ↦ some (some x, r)) fun x r _ ↦
      localAt_some _ r).of_head fun r' hr' ↦ ?_
    obtain ⟨r', rfl⟩ := List.head?_eq_some_iff.1 hr'
    exact if_neg hb

theorem hasPlace_optional (hblanks : SkipsBlanks item) {get : α → Option UInt32}
    {set : UInt32 → α → α} (h : HasPlace item get set) :
    HasPlace (optional item) (·.bind get) fun w ↦ Option.map (set w) := by
  intro s rest o w hfound hget
  rw [found_optional hblanks] at hfound
  obtain ⟨blanks, hblank, hs⟩ := exists_blanks s
  rcases hdrop : s.dropWhile isBlank with - | ⟨b, r⟩
  · rw [hdrop] at hfound
    cases hfound
  have hb := isBlank_of_dropWhile_eq_cons hdrop
  rw [hdrop] at hfound hs
  rw [optionalAt] at hfound
  split at hfound
  · obtain ⟨p, -, hp⟩ := Option.bind_eq_some_iff.1 hfound
    obtain ⟨rfl, -⟩ := Prod.mk.inj (Option.some.inj hp)
    cases hget
  next hn =>
    obtain ⟨⟨x, r'⟩, hitem, hp⟩ := Option.bind_eq_some_iff.1 hfound
    obtain ⟨rfl, rfl⟩ := Prod.mk.inj (Option.some.inj hp)
    obtain ⟨before, after, hplace⟩ := h hitem hget
    refine ⟨blanks ++ before, after, ?_, fun w' rest' hhead ↦ ?_⟩
    · rw [List.append_assoc, ← hplace.split, hs]
    · have hread := hplace.scan_eq w' rest' hhead
      obtain ⟨d, t, hd, hfirst⟩ := hplace.exists_eq_cons w' rest'
      rw [hd] at hread
      -- neither the octet that stood there nor a digit is a blank or starts `null`
      have hdb : isBlank d = false ∧ d ≠ octet 'n' := by
        rcases hfirst with rfl | hdigit
        · exact ⟨hb, hn⟩
        · exact ⟨(of_isDigit hdigit).1, (of_isDigit hdigit).2.2⟩
      rw [List.append_assoc, hd]
      simp only [found_optional hblanks, dropWhile_blanks hblank hdb.1, optionalAt, if_neg hdb.2,
        hread, Option.bind_some]
      rfl

end Optional

/-! ### Whole texts -/

section Decode

variable {reader : Reader α} {get : α → Option UInt32} {set : UInt32 → α → α}

theorem decode_eq_ok_iff {s : List UInt8} {x : α} :
    decode reader s = .ok x ↔ ∃ rest, found (reader s) = some (x, rest) ∧
      rest.dropWhile isBlank = [] := by
  rw [decode]
  rcases reader s with e | ⟨y, rest, hrest⟩
  · simp
  by_cases hend : (skipBlanks rest).val = []
  · simp only [if_pos hend, found_ok, Option.some.injEq, Prod.mk.injEq, Except.ok.injEq]
    constructor
    · intro h
      exact ⟨rest, ⟨h, rfl⟩, skipBlanks_val rest ▸ hend⟩
    · rintro ⟨_, ⟨h, -⟩, -⟩
      exact h
  · simp only [if_neg hend, found_ok, Option.some.injEq, Prod.mk.injEq, reduceCtorEq, false_iff]
    rintro ⟨_, ⟨-, rfl⟩, hrest⟩
    exact hend (skipBlanks_val rest ▸ hrest)

/-- A number that is read stands in the text, and any other may stand in its place. -/
theorem HasPlace.exists_text (h : HasPlace reader get set) {text : String} {x : α} {w : UInt32}
    (hdecode : decode reader (octetsOf text) = .ok x) (hw : get x = some w) :
    ∃ before after, text = before ++ toString w ++ after ∧ ∀ w' : UInt32,
      decode reader (octetsOf (before ++ toString w' ++ after)) = .ok (set w' x) := by
  obtain ⟨rest, hfound, hend⟩ := decode_eq_ok_iff.1 hdecode
  obtain ⟨before, after, hplace⟩ := h hfound hw
  obtain ⟨front, back, hsplit, rfl, hback⟩ := exists_text_of_octets hplace.split
  refine ⟨front, back, hsplit, fun w' ↦ decode_eq_ok_iff.2 ⟨rest, ?_, hend⟩⟩
  rw [octetsOf_append, octetsOf_append, octetsOf_toString, hback, List.append_assoc]
  exact hplace.scan_eq w' rest rfl

/-- Whichever number stands between `before` and `after`, the text is read, and that number is the
one at `get`. -/
def TakesAny (reader : Reader α) (get : α → Option UInt32) (before after : String) : Prop :=
  ∀ w : UInt32, ∃ x, decode reader (octetsOf (before ++ toString w ++ after)) = .ok x ∧
    get x = some w

/-- The number that is read from a text is not zero exactly if no zero stands in it where any number
may stand. -/
theorem HasPlace.one_le_iff (h : HasPlace reader get set)
    (hset : ∀ x w w', get x = some w → get (set w' x) = some w') (text : String) :
    (∀ x, decode reader (octetsOf text) = .ok x → ∀ w ∈ get x, 1 ≤ w.toNat) ↔
      ∀ before after, text = before ++ "0" ++ after → ¬ TakesAny reader get before after := by
  constructor
  · rintro hread before after rfl htakes
    obtain ⟨x, hx, hw⟩ := htakes 0
    exact absurd (hread x hx 0 hw) (by decide)
  · intro hzero x hx w hw
    by_contra hline
    obtain rfl : w = 0 := UInt32.toNat_inj.1 (Nat.eq_zero_of_not_pos hline)
    obtain ⟨before, after, htext, hany⟩ := h.exists_text hx hw
    exact hzero before after htext fun w' ↦ ⟨_, hany w', hset x 0 w' hw⟩

end Decode

end SourceChain.Json.Reader
