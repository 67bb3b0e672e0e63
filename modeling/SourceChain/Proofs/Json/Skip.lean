import SourceChain.Proofs.Json.Locality

/-!
# Values that are passed over

A value under a key that is no field is passed over. It may hold lists and records as deep as it
likes: what is open is kept in a list of frames, and the text is gone through once, from value to
value (`passValue`) and from the end of one to what follows it (`passAfter`). One step of either
looks at the next few octets (`front`, `following`) and goes on with less of the text
(`passValue_eq`, `passAfter_cons`), and so both are local (`localAt_skip`).
-/

namespace SourceChain.Json

/-! ### Numbers that are passed over -/

theorem localAt_skipDigits (s : List UInt8) : LocalAt (fun s ↦ left (skipDigits s)) s := by
  have hdigits : ∀ s, left (skipDigits s) = (some (s.takeWhile isDigit, s.dropWhile isDigit)).bind
      fun p ↦ if p.1 = [] then none else some ((), p.2) := by
    intro s
    rw [skipDigits, takeDigits]
    rcases s.takeWhile isDigit with - | ⟨d, ds⟩ <;> rfl
  simp only [hdigits]
  exact (localAt_span isDigit s).bind (g := fun ds r ↦ if ds = [] then none else some ((), r))
    fun _ r _ ↦ localAt_ite (fun _ ↦ localAt_none rfl) fun _ ↦ localAt_some () r

/-- A text without the sign that it may start with. -/
def unsigned : List UInt8 → List UInt8
  | [] => []
  | b :: r => if b = plus ∨ b = minus then r else b :: r

theorem localAt_unsigned (s : List UInt8) : LocalAt (fun s ↦ some ((), unsigned s)) s := by
  rcases s with - | ⟨b, r⟩
  · refine localAt_stay () fun r hr ↦ ?_
    rw [List.head?_eq_none_iff.1 hr, unsigned]
  · by_cases hb : b = plus ∨ b = minus
    · exact (localAt_some () r).cons fun r ↦ by rw [unsigned, if_pos hb]
    · refine localAt_stay () fun r hr ↦ ?_
      obtain ⟨r', rfl⟩ := List.head?_eq_some_iff.1 hr
      rw [unsigned, if_neg hb]

theorem left_skipExponent_cons (b : UInt8) (r : List UInt8) :
    left (skipExponent (b :: r)) =
      if b = octet 'e' ∨ b = octet 'E' then left (skipDigits (unsigned r))
      else some ((), b :: r) := by
  by_cases hb : b = octet 'e' ∨ b = octet 'E'
  · rw [if_pos hb, skipExponent.eq_def]
    simp only [if_pos hb]
    rcases r with - | ⟨c, r⟩
    · rfl
    · have hval : ∀ hr hcons, (if c = plus ∨ c = minus then (⟨r, hr⟩ : AtMost (c :: r).length)
          else ⟨c :: r, hcons⟩).val = unsigned (c :: r) := by
        intro hr hcons
        rw [unsigned]
        split <;> rfl
      have hsame := fun hr hcons ↦ congrArg (fun u ↦ left (skipDigits u)) (hval hr hcons)
      dsimp only
      split
      next e he => exact (congrArg left he).symm.trans (hsame _ _)
      next rest h hrest => exact (congrArg left hrest).symm.trans (hsame _ _)
  · rw [if_neg hb, skipExponent.eq_def]
    simp only [if_neg hb, left_ok]

theorem localAt_skipExponent (s : List UInt8) : LocalAt (fun s ↦ left (skipExponent s)) s := by
  rcases s with - | ⟨b, r⟩
  · refine localAt_stay () fun r hr ↦ ?_
    rw [List.head?_eq_none_iff.1 hr, skipExponent, left_ok]
  by_cases hb : b = octet 'e' ∨ b = octet 'E'
  · refine ((localAt_unsigned r).bind (g := fun _ r ↦ left (skipDigits r))
      fun _ r _ ↦ localAt_skipDigits r).cons fun r ↦ ?_
    rw [left_skipExponent_cons, if_pos hb]
    rfl
  · refine localAt_stay () fun r hr ↦ ?_
    obtain ⟨r', rfl⟩ := List.head?_eq_some_iff.1 hr
    rw [left_skipExponent_cons, if_neg hb]

theorem localAt_skipFraction (s : List UInt8) : LocalAt (fun s ↦ left (skipFraction s)) s := by
  rcases s with - | ⟨b, r⟩
  · refine localAt_stay () fun r hr ↦ ?_
    rw [List.head?_eq_none_iff.1 hr, skipFraction, left_ok]
  by_cases hb : b = point
  · refine ((localAt_skipDigits r).bind (g := fun _ r ↦ left (skipExponent r))
      fun _ r _ ↦ localAt_skipExponent r).cons fun r ↦ ?_
    simp only [skipFraction, if_pos hb]
    rcases skipDigits r with e | ⟨rest, h⟩
    · rfl
    · simp only [left_ok, Option.bind_some]
      rcases skipExponent rest with e | ⟨rest', h'⟩ <;> rfl
  · refine (localAt_skipExponent (b :: r)).of_head fun r hr ↦ ?_
    obtain ⟨r', rfl⟩ := List.head?_eq_some_iff.1 hr
    rw [skipFraction, if_neg hb]

theorem localAt_skipNumeral (s : List UInt8) : LocalAt (fun s ↦ left (skipNumeral s)) s := by
  rcases s with - | ⟨b, r⟩
  · exact localAt_none rfl
  by_cases hzero : b = octet '0'
  · have hnext : LocalAt (fun r ↦ if (r.head?.map isDigit).getD false then none
        else left (skipFraction r)) r := by
      by_cases hdigit : (r.head?.map isDigit).getD false
      · exact localAt_none (if_pos hdigit)
      · refine (localAt_skipFraction r).of_head fun r' hr ↦ ?_
        rw [hr, if_neg hdigit]
    refine hnext.cons fun r ↦ ?_
    simp only [skipNumeral, if_pos hzero]
    split
    · rfl
    · rcases skipFraction r with e | ⟨rest, h⟩ <;> rfl
  by_cases hdigit : isDigit b
  · refine ((localAt_span isDigit r).bind (g := fun _ r ↦ left (skipFraction r))
      fun _ r _ ↦ localAt_skipFraction r).cons fun r ↦ ?_
    simp only [skipNumeral, if_neg hzero, if_pos hdigit, takeDigits, Option.bind_some]
    rcases skipFraction (r.dropWhile isDigit) with e | ⟨rest, h⟩ <;> rfl
  · refine localAt_none ?_
    simp [skipNumeral, hzero, hdigit]

/-! ### Values that are passed over -/

/-- What is left after a key that stands first, and its colon. -/
def afterKey : List UInt8 → Option (Unit × List UInt8)
  | [] => none
  | b :: r => if b = quote then (left (skipQuoted r)).bind fun p ↦ left (skipColon p.2) else none

theorem left_skipKey (s : List UInt8) : left (skipKey s) = afterKey (s.dropWhile isBlank) := by
  rw [skipKey, ← skipBlanks_val]
  rcases skipBlanks s with ⟨- | ⟨b, r⟩, h⟩
  · rfl
  · simp only [afterKey]
    split
    · rcases skipQuoted r with e | ⟨rest, hr⟩
      · rfl
      · simp only [left_ok, Option.bind_some]
        rcases skipColon rest with e | ⟨rest', hr'⟩ <;> rfl
    · rfl

theorem localAt_skipKey (s : List UInt8) : LocalAt (fun s ↦ left (skipKey s)) s := by
  simp only [left_skipKey]
  refine LocalAt.blanks ?_
  rcases s.dropWhile isBlank with - | ⟨b, r⟩
  · exact localAt_none rfl
  · exact (localAt_ite (fun _ ↦ (localAt_skipQuoted r).bind (g := fun _ r ↦ left (skipColon r))
      fun _ r _ ↦ localAt_skipColon r) fun _ ↦ localAt_none rfl).cons fun _ ↦ rfl

/-- What is left after a value and everything that is open around it. -/
def passValue (around : List Frame) (s : List UInt8) : Option (Unit × List UInt8) :=
  left (skipValue s.length around s (length_le_self s))

/-- What is left after everything that is open, where a value has just ended. -/
def passAfter (around : List Frame) (s : List UInt8) : Option (Unit × List UInt8) :=
  left (skipAfter (s.length + 1) around s (Nat.lt_succ_self _))

/-- What stands behind the opening of a list or record: its end, or what `f` finds first. -/
def opened (frame : Frame) (close : UInt8) (f : List UInt8 → Option (Unit × List UInt8)) :
    List UInt8 → Option (Option Frame × List UInt8)
  | [] => none
  | c :: r => if c = close then some (none, r) else (f (c :: r)).bind fun p ↦ some (some frame, p.2)

/-- The word that an octet starts. -/
def wordFrom (b : UInt8) : Option (List Char) :=
  if b = octet 'n' then some ['u', 'l', 'l']
  else if b = octet 't' then some ['r', 'u', 'e']
  else if b = octet 'f' then some ['a', 'l', 's', 'e']
  else none

/-- A value that starts with an octet and holds no other, up to its end. -/
def plainFrom (b : UInt8) (r : List UInt8) : Option (Unit × List UInt8) :=
  if b = quote then left (skipQuoted r)
  else if b = minus then left (skipNumeral r)
  else if isDigit b then left (skipNumeral (b :: r))
  else (wordFrom b).bind fun cs ↦ left (keyword cs r)

/-- A value up to its end, or up to the first value in it. -/
def front : List UInt8 → Option (Option Frame × List UInt8)
  | [] => none
  | b :: r =>
    if b = openList then opened .list closeList (fun s ↦ some ((), s)) (r.dropWhile isBlank)
    else if b = openRecord then
      opened .record closeRecord (fun s ↦ left (skipKey s)) (r.dropWhile isBlank)
    else (plainFrom b r).bind fun p ↦ some (none, p.2)

/-- Goes on with a value, or with what follows it. -/
def continueWith (around : List Frame) : Option Frame → List UInt8 → Option (Unit × List UInt8)
  | none, r => passAfter around r
  | some frame, r => passValue (frame :: around) r

/-- What follows a value: another value, or the end of what it stands in. -/
def following (frame : Frame) : List UInt8 → Option (Bool × List UInt8)
  | [] => none
  | b :: r =>
    if b = comma then
      if frame = .list then some (true, r) else (left (skipKey r)).bind fun p ↦ some (true, p.2)
    else if b = closeList ∧ frame = .list ∨ b = closeRecord ∧ frame = .record then some (false, r)
    else none

/-- What is passed over in a text shorter than `l` does not depend on the bound. -/
structure UnboundedBelow (l : Nat) : Prop where
  /-- A value and everything that is open around it. -/
  value : ∀ {n : Nat} {around : List Frame} {r : List UInt8} (h : r.length ≤ n), r.length < l →
    left (skipValue n around r h) = passValue around r
  /-- Everything that is open. -/
  after : ∀ {n : Nat} {around : List Frame} {r : List UInt8} (h : r.length < n), r.length < l →
    left (skipAfter n around r h) = passAfter around r

/-- One step through a value. -/
theorem left_skipValue {n : Nat} {around : List Frame} {s : List UInt8}
    (hbelow : UnboundedBelow s.length) (h : s.length ≤ n) :
    left (skipValue n around s h) =
      (front (s.dropWhile isBlank)).bind fun p ↦ continueWith around p.1 p.2 := by
  rw [skipValue, ← skipBlanks_val]
  rcases skipBlanks s with ⟨- | ⟨b, r⟩, hb⟩
  · rfl
  have hr : r.length < s.length := hb
  by_cases hlist : b = openList
  · simp only [front, if_pos hlist, ← skipBlanks_val]
    rcases skipBlanks r with ⟨- | ⟨c, r'⟩, hc⟩
    · rfl
    have hr' : r'.length < s.length := Nat.lt_of_succ_le (Nat.le_trans hc (Nat.le_of_lt hr))
    by_cases hclose : c = closeList
    · simp only [opened, if_pos hclose]
      exact hbelow.after _ hr'
    · simp only [opened, if_neg hclose]
      exact hbelow.value _ (Nat.lt_of_le_of_lt hc hr)
  by_cases hrecord : b = openRecord
  · simp only [front, if_neg hlist, if_pos hrecord, ← skipBlanks_val]
    rcases skipBlanks r with ⟨- | ⟨c, r'⟩, hc⟩
    · rfl
    have hr' : r'.length < s.length := Nat.lt_of_succ_le (Nat.le_trans hc (Nat.le_of_lt hr))
    by_cases hclose : c = closeRecord
    · simp only [opened, if_pos hclose]
      exact hbelow.after _ hr'
    · simp only [opened, if_neg hclose]
      rcases skipKey (c :: r') with e | ⟨rest, hk⟩
      · rfl
      · exact hbelow.value _ (Nat.lt_trans hk (Nat.lt_of_le_of_lt hc hr))
  simp only [front, plainFrom, if_neg hlist, if_neg hrecord]
  by_cases hquote : b = quote
  · simp only [if_pos hquote]
    rcases skipQuoted r with e | ⟨rest, hk⟩
    · rfl
    · exact hbelow.after _ (Nat.lt_trans hk hr)
  by_cases hminus : b = minus
  · simp only [if_neg hquote, if_pos hminus]
    rcases skipNumeral r with e | ⟨rest, hk⟩
    · rfl
    · exact hbelow.after _ (Nat.lt_trans hk hr)
  by_cases hdigit : isDigit b
  · simp only [if_neg hquote, if_neg hminus, if_pos hdigit]
    rcases skipNumeral (b :: r) with e | ⟨rest, hk⟩
    · rfl
    · exact hbelow.after _ (Nat.lt_of_lt_of_le hk hb)
  · simp only [if_neg hquote, if_neg hminus, if_neg hdigit, wordFrom]
    generalize (ite (b = octet 'n') (some ['u', 'l', 'l']) _) = word
    rcases word with - | cs
    · rfl
    · simp only [Option.bind_some]
      rcases keyword cs r with e | ⟨rest, hk⟩
      · rfl
      · exact hbelow.after _ (Nat.lt_of_le_of_lt hk hr)

/-- One step behind a value. -/
theorem left_skipAfter {n : Nat} {frame : Frame} {outer : List Frame} {s : List UInt8}
    (hbelow : UnboundedBelow s.length) (h : s.length < n) :
    left (skipAfter n (frame :: outer) s h) =
      (following frame (s.dropWhile isBlank)).bind fun p ↦
        if p.1 then passValue (frame :: outer) p.2 else passAfter outer p.2 := by
  rw [skipAfter, ← skipBlanks_val]
  rcases skipBlanks s with ⟨- | ⟨b, r⟩, hb⟩
  · rfl
  have hr : r.length < s.length := hb
  by_cases hcomma : b = comma
  · simp only [following, if_pos hcomma]
    cases frame with
    | list => exact hbelow.value _ hr
    | record =>
      simp only [reduceCtorEq, if_false]
      rcases skipKey r with e | ⟨rest, hk⟩
      · rfl
      · exact hbelow.value _ (Nat.lt_trans hk hr)
  · simp only [following, if_neg hcomma]
    by_cases hclose : b = closeList ∧ frame = .list ∨ b = closeRecord ∧ frame = .record
    · simp only [if_pos hclose]
      exact hbelow.after _ hr
    · simp only [if_neg hclose]
      rfl

theorem passAfter_nil (s : List UInt8) : passAfter [] s = some ((), s) := by
  rw [passAfter, skipAfter, left_ok]

/-- Two bounds lead through the same steps, to shorter and shorter texts. -/
theorem unboundedBelow (l : Nat) : UnboundedBelow l := by
  induction l with
  | zero =>
    exact ⟨fun _ hr ↦ absurd hr (Nat.not_lt_zero _), fun _ hr ↦ absurd hr (Nat.not_lt_zero _)⟩
  | succ l ih =>
    have hbelow : ∀ {r : List UInt8}, r.length < l + 1 → UnboundedBelow r.length := fun hr ↦
      ⟨fun h hlt ↦ ih.value h (Nat.lt_of_lt_of_le hlt (Nat.le_of_lt_succ hr)),
        fun h hlt ↦ ih.after h (Nat.lt_of_lt_of_le hlt (Nat.le_of_lt_succ hr))⟩
    refine ⟨fun h hr ↦ ?_, fun {n around r} h hr ↦ ?_⟩
    · rw [passValue, left_skipValue (hbelow hr), left_skipValue (hbelow hr)]
    · rcases around with - | ⟨frame, outer⟩
      · rw [passAfter_nil, skipAfter, left_ok]
      · rw [passAfter, left_skipAfter (hbelow hr), left_skipAfter (hbelow hr)]

theorem passValue_eq (around : List Frame) (s : List UInt8) :
    passValue around s =
      (front (s.dropWhile isBlank)).bind fun p ↦ continueWith around p.1 p.2 :=
  left_skipValue (unboundedBelow _) _

theorem passAfter_cons (frame : Frame) (outer : List Frame) (s : List UInt8) :
    passAfter (frame :: outer) s =
      (following frame (s.dropWhile isBlank)).bind fun p ↦
        if p.1 then passValue (frame :: outer) p.2 else passAfter outer p.2 :=
  left_skipAfter (unboundedBelow _) _

theorem localAt_opened (frame : Frame) (close : UInt8)
    {f : List UInt8 → Option (Unit × List UInt8)} (hscan : ∀ s, LocalAt f s)
    (s : List UInt8) : LocalAt (opened frame close f) s := by
  rcases s with - | ⟨c, r⟩
  · exact localAt_none rfl
  by_cases hc : c = close
  · exact (localAt_some none r).cons fun r ↦ if_pos hc
  · refine ((hscan (c :: r)).bind (g := fun _ r ↦ some (some frame, r))
      fun _ r _ ↦ localAt_some _ r).of_head fun r hr ↦ ?_
    obtain ⟨r', rfl⟩ := List.head?_eq_some_iff.1 hr
    exact if_neg hc

theorem localAt_plainFrom (b : UInt8) (r : List UInt8) : LocalAt (plainFrom b) r := by
  refine localAt_ite (fun _ ↦ localAt_skipQuoted r) fun _ ↦
    localAt_ite (fun _ ↦ localAt_skipNumeral r) fun _ ↦ localAt_ite (fun _ ↦ ?_) fun _ ↦ ?_
  · exact (localAt_skipNumeral (b :: r)).uncons fun x rest h ↦ Nat.le_of_lt_succ (prop_of_left h)
  · rcases wordFrom b with - | cs
    · exact localAt_none rfl
    · exact localAt_keyword cs r

theorem localAt_front (s : List UInt8) : LocalAt front s := by
  rcases s with - | ⟨b, r⟩
  · exact localAt_none rfl
  · have hlist := LocalAt.blanks (localAt_opened .list closeList (fun s ↦ localAt_some () s)
      (r.dropWhile isBlank))
    have hrecord := LocalAt.blanks (localAt_opened .record closeRecord localAt_skipKey
      (r.dropWhile isBlank))
    have hplain := (localAt_plainFrom b r).bind (g := fun _ r ↦ some ((none : Option Frame), r))
      fun _ r _ ↦ localAt_some _ r
    exact (localAt_ite (fun _ ↦ hlist) fun _ ↦ localAt_ite (fun _ ↦ hrecord) fun _ ↦ hplain).cons
      fun _ ↦ rfl

theorem localAt_following (frame : Frame) (s : List UInt8) : LocalAt (following frame) s := by
  rcases s with - | ⟨b, r⟩
  · exact localAt_none rfl
  · have hkey := (localAt_skipKey r).bind (g := fun _ r ↦ some (true, r))
      fun _ r _ ↦ localAt_some _ r
    exact (localAt_ite (fun _ ↦ localAt_ite (fun _ ↦ localAt_some _ r) fun _ ↦ hkey) fun _ ↦
      localAt_ite (fun _ ↦ localAt_some _ r) fun _ ↦ localAt_none rfl).cons fun _ ↦ rfl

theorem length_le_dropWhile_isBlank (s : List UInt8) :
    (s.dropWhile isBlank).length ≤ s.length :=
  (skipBlanks s).property

theorem length_le_of_opened {frame : Frame} {close : UInt8}
    {f : List UInt8 → Option (Unit × List UInt8)}
    (hscan : ∀ {s x rest}, f s = some (x, rest) → rest.length ≤ s.length) {s rest : List UInt8}
    {o : Option Frame} (h : opened frame close f s = some (o, rest)) :
    rest.length ≤ s.length := by
  rcases s with - | ⟨c, r⟩
  · cases h
  · rw [opened] at h
    split at h
    · obtain ⟨-, rfl⟩ := Prod.mk.inj (Option.some.inj h)
      exact Nat.le_succ _
    · obtain ⟨p, hp, hrest⟩ := Option.bind_eq_some_iff.1 h
      obtain ⟨-, rfl⟩ := Prod.mk.inj (Option.some.inj hrest)
      exact hscan hp

theorem length_le_of_plainFrom {b : UInt8} {r rest : List UInt8} {x : Unit}
    (h : plainFrom b r = some (x, rest)) : rest.length ≤ r.length := by
  rw [plainFrom] at h
  split at h
  · exact Nat.le_of_lt (prop_of_left h)
  · split at h
    · exact Nat.le_of_lt (prop_of_left h)
    · split at h
      · exact Nat.le_of_lt_succ (prop_of_left h)
      · obtain ⟨cs, -, hcs⟩ := Option.bind_eq_some_iff.1 h
        exact prop_of_left hcs

theorem length_lt_of_front {s rest : List UInt8} {o : Option Frame}
    (h : front s = some (o, rest)) : rest.length < s.length := by
  rcases s with - | ⟨b, r⟩
  · cases h
  · have hblanks := length_le_dropWhile_isBlank r
    rw [front] at h
    split at h
    · have hle := length_le_of_opened (fun hscan ↦ by cases hscan; exact Nat.le_refl _) h
      exact Nat.lt_succ_of_le (Nat.le_trans hle hblanks)
    · split at h
      · have hle := length_le_of_opened (fun hscan ↦ Nat.le_of_lt (prop_of_left hscan)) h
        exact Nat.lt_succ_of_le (Nat.le_trans hle hblanks)
      · obtain ⟨p, hp, hrest⟩ := Option.bind_eq_some_iff.1 h
        obtain ⟨-, rfl⟩ := Prod.mk.inj (Option.some.inj hrest)
        exact Nat.lt_succ_of_le (length_le_of_plainFrom hp)

theorem length_lt_of_following {frame : Frame} {s rest : List UInt8} {more : Bool}
    (h : following frame s = some (more, rest)) : rest.length < s.length := by
  rcases s with - | ⟨b, r⟩
  · cases h
  · rw [following] at h
    split at h
    · split at h
      · obtain ⟨-, rfl⟩ := Prod.mk.inj (Option.some.inj h)
        exact Nat.lt_succ_self _
      · obtain ⟨p, hp, hrest⟩ := Option.bind_eq_some_iff.1 h
        obtain ⟨-, rfl⟩ := Prod.mk.inj (Option.some.inj hrest)
        exact Nat.lt_succ_of_lt (prop_of_left hp)
    · split at h
      · obtain ⟨-, rfl⟩ := Prod.mk.inj (Option.some.inj h)
        exact Nat.lt_succ_self _
      · cases h

theorem localAt_pass (l : Nat) : ∀ s : List UInt8, s.length = l →
    (∀ around, LocalAt (passValue around) s) ∧ ∀ around, LocalAt (passAfter around) s := by
  induction l using Nat.strongRecOn with
  | ind l ih =>
    rintro s rfl
    have hblanks := length_le_dropWhile_isBlank s
    constructor
    · intro around
      have hnext := (localAt_front (s.dropWhile isBlank)).bind (g := continueWith around)
        fun o r hr ↦ by
          have hlt := Nat.lt_of_lt_of_le (length_lt_of_front hr) hblanks
          cases o with
          | none => exact (ih _ hlt r rfl).2 around
          | some frame => exact (ih _ hlt r rfl).1 (frame :: around)
      exact (funext (passValue_eq around)) ▸ hnext.blanks
    · intro around
      rcases around with - | ⟨frame, outer⟩
      · exact (funext passAfter_nil) ▸ localAt_some () s
      · have hnext := (localAt_following frame (s.dropWhile isBlank)).bind
          (g := fun more r ↦ if more then passValue (frame :: outer) r else passAfter outer r)
          fun more r hr ↦ by
            have hlt := Nat.lt_of_lt_of_le (length_lt_of_following hr) hblanks
            cases more with
            | true => exact (ih _ hlt r rfl).1 (frame :: outer)
            | false => exact (ih _ hlt r rfl).2 outer
        exact (funext (passAfter_cons frame outer)) ▸ hnext.blanks

theorem localAt_skip (s : List UInt8) : LocalAt (fun s ↦ left (skip s)) s :=
  (localAt_pass _ s rfl).1 []

end SourceChain.Json
