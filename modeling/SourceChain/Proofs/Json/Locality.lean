import Mathlib.Data.List.TakeWhile
import SourceChain.Proofs.Json.Reader

/-!
# Reading looks at what is taken and one octet further

Readers run over a text from its front. What one finds depends on the octets that it takes, and at
most on the one that is next, as a number has to end somewhere (`LocalAt`). So a part of a text can
be changed without changing what is read behind it.

That is said of plain functions on octets, which read as `Option` what a reader finds (`found`,
`left`), with neither the bound on what is left nor the fault. Locality passes through reading one
thing behind another (`LocalAt.bind`), and from there it is shown for one reader after the other, up
to quoted texts.
-/

namespace SourceChain.Json

variable {α β : Type} {P : List UInt8 → Prop}

/-! ### What is found, and what is left -/

/-- What was read and what is left, without the bound on its length. -/
def found : Except Fault (α × Subtype P) → Option (α × List UInt8)
  | .ok (x, rest) => some (x, rest)
  | .error _ => none

/-- What is left, without the bound on its length. -/
def left : Except Fault (Subtype P) → Option (Unit × List UInt8)
  | .ok rest => some ((), rest)
  | .error _ => none

@[simp] theorem found_ok (x : α) (rest : Subtype P) : found (.ok (x, rest)) = some (x, rest.val) :=
  rfl

@[simp] theorem found_error (e : Fault) :
    found (.error e : Except Fault (α × Subtype P)) = none :=
  rfl

@[simp] theorem left_ok (rest : Subtype P) : left (.ok rest) = some ((), rest.val) :=
  rfl

@[simp] theorem left_error (e : Fault) : left (.error e : Except Fault (Subtype P)) = none :=
  rfl

theorem prop_of_found {e : Except Fault (α × Subtype P)} {x : α} {rest : List UInt8}
    (h : found e = some (x, rest)) : P rest := by
  rcases e with e | ⟨y, rest, hrest⟩
  · cases h
  · obtain ⟨rfl, rfl⟩ := Prod.mk.inj (Option.some.inj h)
    exact hrest

theorem prop_of_left {e : Except Fault (Subtype P)} {x : Unit} {rest : List UInt8}
    (h : left e = some (x, rest)) : P rest := by
  rcases e with e | ⟨rest, hrest⟩
  · cases h
  · obtain ⟨-, rfl⟩ := Prod.mk.inj (Option.some.inj h)
    exact hrest

/-! ### Locality -/

/-- What is found at `s` is found wherever the octets that were taken stand, as long as the same
octet is next. -/
def LocalAt (f : List UInt8 → Option (α × List UInt8)) (s : List UInt8) : Prop :=
  ∀ x rest, f s = some (x, rest) → ∃ taken, s = taken ++ rest ∧
    ∀ rest', rest'.head? = rest.head? → f (taken ++ rest') = some (x, rest')

section Local

variable {f : List UInt8 → Option (α × List UInt8)} {s r : List UInt8} {b : UInt8}

/-- Where nothing is found, there is nothing to show. -/
theorem localAt_none (h : f s = none) : LocalAt f s := fun x rest hscan ↦ by
  cases h.symm.trans hscan

theorem localAt_map (o : Option α) (s : List UInt8) : LocalAt (fun r ↦ o.map (·, r)) s := by
  rintro x rest h
  obtain ⟨y, rfl, hy⟩ := Option.map_eq_some_iff.1 h
  obtain ⟨rfl, rfl⟩ := Prod.mk.inj hy
  exact ⟨[], rfl, fun rest' _ ↦ rfl⟩

theorem localAt_some (x : α) (s : List UInt8) : LocalAt (fun r ↦ some (x, r)) s :=
  localAt_map (some x) s

theorem localAt_stay (x : α) (h : ∀ r, r.head? = s.head? → f r = some (x, r)) :
    LocalAt f s := by
  intro y rest hscan
  obtain ⟨rfl, rfl⟩ := Prod.mk.inj (Option.some.inj ((h s rfl).symm.trans hscan))
  exact ⟨[], rfl, h⟩

/-- Functions that agree on the texts with the same octet in front are local together. -/
theorem LocalAt.of_head {f' : List UInt8 → Option (α × List UInt8)} (h : LocalAt f' s)
    (heq : ∀ r, r.head? = s.head? → f r = f' r) : LocalAt f s := by
  intro x rest hscan
  obtain ⟨taken, rfl, hlocal⟩ := h x rest (heq s rfl ▸ hscan)
  refine ⟨taken, rfl, fun rest' hhead ↦ (heq _ ?_).trans (hlocal rest' hhead)⟩
  cases taken <;> simp [hhead]

theorem LocalAt.cons {f' : List UInt8 → Option (α × List UInt8)} (h : LocalAt f' r)
    (heq : ∀ r, f (b :: r) = f' r) : LocalAt f (b :: r) := by
  intro x rest hscan
  obtain ⟨taken, rfl, hlocal⟩ := h x rest (heq r ▸ hscan)
  exact ⟨b :: taken, rfl, fun rest' hhead ↦ (heq _).trans (hlocal rest' hhead)⟩

/-- What takes the first octet is local behind it, too. -/
theorem LocalAt.uncons (h : LocalAt f (b :: r))
    (hlength : ∀ x rest, f (b :: r) = some (x, rest) → rest.length ≤ r.length) :
    LocalAt (fun r ↦ f (b :: r)) r := by
  intro x rest hscan
  obtain ⟨taken, hsplit, hlocal⟩ := h x rest hscan
  rcases taken with - | ⟨c, taken⟩
  · have hrest := hlength x rest hscan
    obtain rfl : b :: r = rest := hsplit
    exact absurd hrest (Nat.not_succ_le_self _)
  · obtain ⟨rfl, rfl⟩ := List.cons.inj hsplit
    exact ⟨taken, rfl, hlocal⟩

/-- Reading one thing behind another is local if both are. -/
theorem LocalAt.bind {g : α → List UInt8 → Option (β × List UInt8)} (h : LocalAt f s)
    (hg : ∀ x r, f s = some (x, r) → LocalAt (g x) r) :
    LocalAt (fun s ↦ (f s).bind fun p ↦ g p.1 p.2) s := by
  intro y rest hscan
  obtain ⟨⟨x, r⟩, hx, hy⟩ := Option.bind_eq_some_iff.1 hscan
  obtain ⟨first, rfl, hfirst⟩ := h x r hx
  obtain ⟨second, rfl, hsecond⟩ := hg x r hx y rest hy
  refine ⟨first ++ second, (List.append_assoc ..).symm, fun rest' hhead ↦ ?_⟩
  have hahead : (second ++ rest').head? = (second ++ rest).head? := by
    cases second <;> simp [hhead]
  simp only [List.append_assoc, hfirst _ hahead, Option.bind_some, hsecond rest' hhead]

theorem localAt_ite {p : Prop} [Decidable p] {f' : List UInt8 → Option (α × List UInt8)}
    (h : p → LocalAt f s) (h' : ¬ p → LocalAt f' s) :
    LocalAt (fun r ↦ if p then f r else f' r) s := by
  by_cases hp : p
  · simpa only [if_pos hp] using h hp
  · simpa only [if_neg hp] using h' hp

/-- A run of octets ends at the first that is not one of them. -/
theorem localAt_span (p : UInt8 → Bool) (s : List UInt8) :
    LocalAt (fun s ↦ some (s.takeWhile p, s.dropWhile p)) s := by
  induction s with
  | nil =>
    rintro x rest h
    obtain ⟨rfl, rfl⟩ := Prod.mk.inj (Option.some.inj h)
    refine ⟨[], rfl, fun rest' hhead ↦ ?_⟩
    obtain rfl := List.head?_eq_none_iff.1 hhead
    rfl
  | cons b s ih =>
    by_cases hb : p b
    · refine (ih.bind fun x r _ ↦ localAt_some (b :: x) r).cons fun r ↦ ?_
      simp [hb]
    · rintro x rest h
      simp only [List.takeWhile_cons_of_neg hb, List.dropWhile_cons_of_neg hb] at h
      obtain ⟨rfl, rfl⟩ := Prod.mk.inj (Option.some.inj h)
      refine ⟨[], rfl, fun rest' hhead ↦ ?_⟩
      obtain ⟨r, rfl⟩ := List.head?_eq_some_iff.1 hhead
      simp [hb]

theorem LocalAt.blanks (h : LocalAt f (s.dropWhile isBlank)) :
    LocalAt (fun s ↦ f (s.dropWhile isBlank)) s :=
  (localAt_span isBlank s).bind (g := fun _ ↦ f) fun _ _ hspan ↦ by
    obtain ⟨rfl, rfl⟩ := Prod.mk.inj (Option.some.inj hspan)
    exact h

end Local

/-! ### Blanks and keywords -/

theorem skipBlanks_val (s : List UInt8) : (skipBlanks s).val = s.dropWhile isBlank :=
  rfl

/-- Blanks stand in front of what is not blank. -/
theorem exists_blanks (s : List UInt8) :
    ∃ blanks, (∀ b ∈ blanks, isBlank b = true) ∧ blanks ++ s.dropWhile isBlank = s :=
  ⟨s.takeWhile isBlank, fun _ ↦ List.mem_takeWhile_imp, List.takeWhile_append_dropWhile⟩

theorem dropWhile_blanks {blanks r : List UInt8} {b : UInt8}
    (hblanks : ∀ b ∈ blanks, isBlank b = true) (hb : isBlank b = false) :
    (blanks ++ b :: r).dropWhile isBlank = b :: r := by
  rw [List.dropWhile_append_of_pos hblanks, List.dropWhile_cons_of_neg (by simp [hb])]

theorem isBlank_of_dropWhile_eq_cons {s r : List UInt8} {b : UInt8}
    (h : s.dropWhile isBlank = b :: r) : isBlank b = false := by
  have hnot := List.head?_dropWhile_not isBlank s
  rw [h] at hnot
  simpa using hnot

theorem keywordFrom_eq_ok_iff {n : Nat} {cs : List Char} {s : List UInt8} {h : s.length ≤ n}
    {rest : AtMost n} : keywordFrom n cs s h = .ok rest ↔ s = cs.map octet ++ rest.val := by
  induction cs generalizing s with
  | nil =>
    rw [keywordFrom, Except.ok.injEq, Subtype.ext_iff]
    rfl
  | cons c cs ih =>
    cases s with
    | nil => simp [keywordFrom]
    | cons b s =>
      rw [keywordFrom]
      split
      next hb => simp [ih, hb]
      next hb => simp [hb]

theorem localAt_keyword (cs : List Char) (s : List UInt8) :
    LocalAt (fun s ↦ left (keyword cs s)) s := by
  rintro x rest h
  rcases hkeyword : keyword cs s with e | r
  · simp [hkeyword, left] at h
  · simp only [hkeyword, left, Option.some.injEq, Prod.mk.injEq, true_and] at h
    subst h
    refine ⟨cs.map octet, keywordFrom_eq_ok_iff.1 hkeyword, fun rest' _ ↦ ?_⟩
    have hlength : rest'.length ≤ (cs.map octet ++ rest').length := by simp
    have hread : keyword cs (cs.map octet ++ rest') = .ok ⟨rest', hlength⟩ :=
      keywordFrom_eq_ok_iff.2 rfl
    simp only [hread, left]

/-- What is left after a colon that stands first. -/
def afterColon : List UInt8 → Option (Unit × List UInt8)
  | [] => none
  | b :: r => if b = colon then some ((), r) else none

theorem left_skipColon (s : List UInt8) :
    left (skipColon s) = afterColon (s.dropWhile isBlank) := by
  rw [skipColon, ← skipBlanks_val]
  rcases skipBlanks s with ⟨- | ⟨b, r⟩, h⟩
  · rfl
  · simp only [afterColon]
    split <;> rfl

theorem localAt_skipColon (s : List UInt8) : LocalAt (fun s ↦ left (skipColon s)) s := by
  simp only [left_skipColon]
  refine LocalAt.blanks ?_
  rcases s.dropWhile isBlank with - | ⟨b, r⟩
  · exact localAt_none rfl
  · by_cases hb : b = colon
    · exact (localAt_some () r).cons fun r ↦ if_pos hb
    · exact localAt_none (if_neg hb)

/-! ### Quoted text -/

theorem localAt_hexUnit (s : List UInt8) : LocalAt (fun s ↦ found (hexUnit s)) s := by
  rcases s with - | ⟨a, - | ⟨b, - | ⟨c, - | ⟨d, r⟩⟩⟩⟩
  iterate 4 exact localAt_none rfl
  have hunit : ∀ r, found (hexUnit (a :: b :: c :: d :: r)) =
      ((found (hexUnit [a, b, c, d])).map Prod.fst).map (·, r) := by
    intro r
    simp only [hexUnit]
    rcases hexValue? a with - | a
    · rfl
    · rcases hexValue? b with - | b
      · rfl
      · rcases hexValue? c with - | c
        · rfl
        · rcases hexValue? d <;> rfl
  exact ((((localAt_map _ r).cons hunit).cons fun _ ↦ rfl).cons fun _ ↦ rfl).cons fun _ ↦ rfl

theorem localAt_lowSurrogate (high : Nat) (s : List UInt8) :
    LocalAt (fun s ↦ found (lowSurrogate high s)) s := by
  rcases s with - | ⟨b, - | ⟨u, r⟩⟩
  · exact localAt_none rfl
  · refine localAt_none ?_
    simp only [lowSurrogate]
    split <;> rfl
  by_cases hb : b = backslash
  · by_cases hu : u = octet 'u'
    · have hpair := (localAt_hexUnit r).bind
        (g := fun low r ↦
          if isLowSurrogate low then some (codeOctets (pairedCode high low), r) else none)
        fun low r _ ↦ localAt_ite (fun _ ↦ localAt_some _ r) fun _ ↦ localAt_none rfl
      refine (hpair.cons fun r ↦ ?_).cons fun _ ↦ rfl
      simp only [lowSurrogate, hb, hu, ne_eq, not_true_eq_false, if_false]
      rcases hexUnit r with e | ⟨low, rest, h⟩
      · rfl
      · by_cases hlow : isLowSurrogate low <;> simp [hlow]
    · refine localAt_none ?_
      simp only [lowSurrogate, hb, hu, ne_eq, not_true_eq_false, not_false_eq_true, if_false,
        if_true, found]
  · refine localAt_none ?_
    simp only [lowSurrogate, hb, ne_eq, not_false_eq_true, if_true, found]

theorem localAt_escape (s : List UInt8) : LocalAt (fun s ↦ found (escape s)) s := by
  rcases s with - | ⟨b, r⟩
  · exact localAt_none rfl
  by_cases hb : b = octet 'u'
  · have hunit := (localAt_hexUnit r).bind
      (g := fun unit r ↦ if isLowSurrogate unit then none
        else if isHighSurrogate unit then found (lowSurrogate unit r)
        else some (codeOctets unit, r))
      fun unit r _ ↦ localAt_ite (fun _ ↦ localAt_none rfl) fun _ ↦
        localAt_ite (fun _ ↦ localAt_lowSurrogate unit r) fun _ ↦ localAt_some _ r
    refine hunit.cons fun r ↦ ?_
    simp only [escape, if_pos hb]
    rcases hexUnit r with e | ⟨unit, rest, h⟩
    · rfl
    · by_cases hlow : isLowSurrogate unit
      · simp [hlow]
      · by_cases hhigh : isHighSurrogate unit
        · simp only [hlow, hhigh, found_ok, Option.bind_some, Bool.false_eq_true, if_false, if_true]
          rcases lowSurrogate unit rest with e | ⟨octets, rest', h'⟩ <;> rfl
        · simp [hlow, hhigh]
  · refine (localAt_map ((shortEscape? b).map ([·])) r).cons fun r ↦ ?_
    simp only [escape, if_neg hb]
    rcases shortEscape? b with - | x <;> rfl

theorem localAt_skipEscape (s : List UInt8) : LocalAt (fun s ↦ left (skipEscape s)) s := by
  rcases s with - | ⟨b, r⟩
  · exact localAt_none rfl
  by_cases hb : b = octet 'u'
  · refine ((localAt_hexUnit r).bind (g := fun _ r ↦ some ((), r))
      fun _ r _ ↦ localAt_some () r).cons fun r ↦ ?_
    simp only [skipEscape, if_pos hb]
    rcases hexUnit r with e | ⟨unit, rest, h⟩ <;> rfl
  · refine (localAt_map ((shortEscape? b).map fun _ ↦ ()) r).cons fun r ↦ ?_
    simp only [skipEscape, if_neg hb]
    rcases shortEscape? b with - | x <;> rfl

/-- What is left behind a text does not depend on the bound. -/
theorem left_skipQuotedFrom {n m : Nat} {s : List UInt8} (h : s.length ≤ n) (h' : s.length ≤ m) :
    left (skipQuotedFrom n s h) = left (skipQuotedFrom m s h') := by
  fun_induction skipQuotedFrom n s h with
  | case1 => rw [skipQuotedFrom, left_error, left_error]
  | case2 => simp [skipQuotedFrom]
  | case3 => simp [skipQuotedFrom, *]
  | case4 r rest hr hescape _ hquote _ ih =>
    simp only [skipQuotedFrom, if_neg hquote, if_true, hescape]
    exact ih _
  | case5 => simp [skipQuotedFrom, *]
  | case6 b r h hquote hbackslash hcontrol _ ih =>
    simp only [skipQuotedFrom, if_neg hquote, if_neg hbackslash, if_neg hcontrol]
    exact ih _

theorem left_skipQuoted_cons (b : UInt8) (r : List UInt8) :
    left (skipQuoted (b :: r)) =
      if b = quote then some ((), r)
      else if b = backslash then (left (skipEscape r)).bind fun p ↦ left (skipQuoted p.2)
      else if b < 0x20 then none
      else left (skipQuoted r) := by
  rw [skipQuoted, skipQuotedFrom]
  by_cases hquote : b = quote
  · simp [hquote]
  · by_cases hbackslash : b = backslash
    · simp only [if_neg hquote, if_pos hbackslash]
      rcases skipEscape r with e | ⟨rest, hr⟩
      · rfl
      · exact left_skipQuotedFrom _ _
    · simp only [if_neg hquote, if_neg hbackslash]
      by_cases hcontrol : b < 0x20
      · simp [hcontrol]
      · simp only [if_neg hcontrol]
        exact left_skipQuotedFrom _ _

theorem localAt_skipQuoted (s : List UInt8) : LocalAt (fun s ↦ left (skipQuoted s)) s := by
  induction hn : s.length using Nat.strongRecOn generalizing s with
  | ind n ih =>
    subst hn
    rcases s with - | ⟨b, r⟩
    · refine localAt_none ?_
      rw [skipQuoted, skipQuotedFrom, left_error]
    · have hescape := (localAt_skipEscape r).bind (g := fun _ rest ↦ left (skipQuoted rest))
        fun _ rest hrest ↦ ih _ (Nat.lt_succ_of_lt (prop_of_left hrest)) rest rfl
      exact (localAt_ite (fun _ ↦ localAt_some () r) fun _ ↦ localAt_ite (fun _ ↦ hescape) fun _ ↦
        localAt_ite (fun _ ↦ localAt_none rfl) fun _ ↦ ih _ (Nat.lt_succ_self _) r rfl).cons
          (left_skipQuoted_cons b)

/-- The octets of a text do not depend on the bound. -/
theorem found_quotedOctets {n m : Nat} {done s : List UInt8} (h : s.length ≤ n)
    (h' : s.length ≤ m) : found (quotedOctets n done s h) = found (quotedOctets m done s h') := by
  fun_induction quotedOctets n done s h with
  | case1 => rw [quotedOctets, found_error, found_error]
  | case2 => simp [quotedOctets]
  | case3 => simp [quotedOctets, *]
  | case4 done r octets rest hr hescape _ hquote _ ih =>
    simp only [quotedOctets, if_neg hquote, if_true, hescape]
    exact ih _
  | case5 => simp [quotedOctets, *]
  | case6 done b r h hquote hbackslash hcontrol _ ih =>
    simp only [quotedOctets, if_neg hquote, if_neg hbackslash, if_neg hcontrol]
    exact ih _

/-- The octets of a text up to its closing quote, after those in `done`. -/
def quotedFrom (done s : List UInt8) : Option (List UInt8 × List UInt8) :=
  found (quotedOctets s.length done s (length_le_self s))

theorem quotedFrom_cons (done : List UInt8) (b : UInt8) (r : List UInt8) :
    quotedFrom done (b :: r) =
      if b = quote then some (done.reverse, r)
      else if b = backslash then
        (found (escape r)).bind fun p ↦ quotedFrom (p.1.reverse ++ done) p.2
      else if b < 0x20 then none
      else quotedFrom (b :: done) r := by
  rw [quotedFrom, quotedOctets]
  by_cases hquote : b = quote
  · simp [hquote]
  · by_cases hbackslash : b = backslash
    · simp only [if_neg hquote, if_pos hbackslash]
      rcases escape r with e | ⟨octets, rest, hr⟩
      · rfl
      · exact found_quotedOctets _ _
    · simp only [if_neg hquote, if_neg hbackslash]
      by_cases hcontrol : b < 0x20
      · simp [hcontrol]
      · simp only [if_neg hcontrol]
        exact found_quotedOctets _ _

theorem localAt_quotedFrom (done s : List UInt8) : LocalAt (quotedFrom done) s := by
  induction hn : s.length using Nat.strongRecOn generalizing done s with
  | ind n ih =>
    subst hn
    rcases s with - | ⟨b, r⟩
    · refine localAt_none ?_
      rw [quotedFrom, quotedOctets, found_error]
    · have hescape := (localAt_escape r).bind
        (g := fun octets ↦ quotedFrom (octets.reverse ++ done))
        fun _ rest hrest ↦ ih _ (Nat.lt_succ_of_lt (prop_of_found hrest)) _ rest rfl
      exact (localAt_ite (fun _ ↦ localAt_some _ r) fun _ ↦ localAt_ite (fun _ ↦ hescape) fun _ ↦
        localAt_ite (fun _ ↦ localAt_none rfl) fun _ ↦ ih _ (Nat.lt_succ_self _) _ r rfl).cons
          (quotedFrom_cons done b)

theorem localAt_quotedText (s : List UInt8) : LocalAt (fun s ↦ found (quotedText s)) s := by
  have htext : ∀ s, found (quotedText s) = (quotedFrom [] s).bind fun p ↦
      (String.fromUTF8? p.1.toByteArray).map (·, p.2) := by
    intro s
    rw [quotedText, quotedFrom]
    rcases quotedOctets s.length [] s (length_le_self s) with e | ⟨octets, rest⟩
    · rfl
    · simp only [found_ok, Option.bind_some]
      rcases String.fromUTF8? octets.toByteArray with - | text <;> rfl
  simp only [htext]
  exact (localAt_quotedFrom [] s).bind
    (g := fun octets r ↦ (String.fromUTF8? octets.toByteArray).map (·, r))
    fun octets r _ ↦ localAt_map _ r

end SourceChain.Json
