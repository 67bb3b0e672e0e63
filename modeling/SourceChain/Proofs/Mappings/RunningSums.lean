import Mathlib.Algebra.BigOperators.Group.List.Basic
import SourceChain.Proofs.Mappings.Reading

/-!
# What a mappings text says, as sums over its places

A mappings text is a list of places: the start of each line, and the pieces of the line that are not
empty (`places`). Whatever is read at a place depends on the places before it, and only through five
sums. Each is a plain sum of integers over all places up to there (`total`). That the generated
column starts anew on every line is a matter of what is added up: pieces of other lines count
nothing.

This gives a text a meaning without running through it. `Sound` says what must hold at a place,
`faultsAt` lists what is wrong with it in the order of the checks, and a place without faults is a
sound one (`faultsAt_eq_nil_iff`). `segmentOf` is the segment that a piece stands for. What is found
along a list of places is `along`, and the first fault along a text is that of its first place that
is not sound (`head?_along_eq_some_iff`).

Up to the first fault every sum is one that 32 bits hold, and a quantity that is read has fewer than
sixty bits; so 64 bits hold the next sum as well (`Passed.toInt_ofInt_total`).
-/

namespace SourceChain.Mappings

/-! ### Places -/

/-- A place of a text where reading can stop. Lines are counted from zero. -/
inductive Place where
  /-- The start of a line. -/
  | start (line : Nat)
  /-- A piece of a line that is not empty. -/
  | piece (line : Nat) (text : List Char)
deriving DecidableEq, Repr

namespace Place

/-- The line that a place is on. -/
def line : Place → Nat
  | start line => line
  | piece line _ => line

/-- The quantities that stand at a place. -/
def quantities : Place → List Int
  | start _ => []
  | piece _ text =>
    match Vlq.decode (String.ofList text) with
    | .ok values => values.map Int64.toInt
    | .error _ => []

end Place

/-- The places of a line with the given index. -/
def placesOn (index : Nat) (line : List Char) : List Place :=
  .start index :: (piecesOf line).map (.piece index)

/-- The places of lines, if the first of them has the given index. -/
def placesFrom (index : Nat) (lines : List (List Char)) : List Place :=
  (lines.zipIdx index).flatMap fun (line, n) ↦ placesOn n line

/-- The lines of a text. -/
def linesOf (text : String) : List (List Char) :=
  text.toList.splitOn ';'

/-- The places of a text. -/
def places (text : String) : List Place :=
  placesFrom 0 (linesOf text)

theorem placesFrom_cons (index : Nat) (line : List Char) (lines : List (List Char)) :
    placesFrom index (line :: lines) = placesOn index line ++ placesFrom (index + 1) lines := by
  rw [placesFrom, List.zipIdx_cons, List.flatMap_cons, placesFrom]

theorem line_of_mem_placesOn {index : Nat} {line : List Char} {place : Place}
    (h : place ∈ placesOn index line) : place.line = index := by
  rcases List.mem_cons.1 h with rfl | h
  · rfl
  · obtain ⟨text, -, rfl⟩ := List.mem_map.1 h
    rfl

theorem le_line_of_mem_placesFrom {index : Nat} {lines : List (List Char)} {place : Place}
    (h : place ∈ placesFrom index lines) : index ≤ place.line := by
  obtain ⟨⟨line, n⟩, hline, hplace⟩ := List.mem_flatMap.1 h
  rw [line_of_mem_placesOn hplace]
  exact List.le_snd_of_mem_zipIdx hline

theorem pairwise_line_placesOn (index : Nat) (line : List Char) :
    (placesOn index line).Pairwise fun a b ↦ a.line ≤ b.line := by
  refine List.pairwise_of_forall_mem_list fun a ha b hb ↦ ?_
  rw [line_of_mem_placesOn ha, line_of_mem_placesOn hb]

/-- From place to place, the lines never go backwards. -/
theorem pairwise_line_placesFrom (index : Nat) (lines : List (List Char)) :
    (placesFrom index lines).Pairwise fun a b ↦ a.line ≤ b.line := by
  induction lines generalizing index with
  | nil => exact List.Pairwise.nil
  | cons line lines ih =>
    rw [placesFrom_cons]
    refine List.pairwise_append.2
      ⟨pairwise_line_placesOn index line, ih (index + 1), fun a ha b hb ↦ ?_⟩
    rw [line_of_mem_placesOn ha]
    exact Nat.le_of_succ_le (le_line_of_mem_placesFrom hb)

/-! ### Sums -/

/-- Which of the quantities of a piece is added to a sum. -/
def Field.ordinal : Field → Nat
  | generatedColumn => 0
  | sourceIndex => 1
  | sourceLine => 2
  | sourceColumn => 3
  | nameIndex => 4

/-- What a place adds to a sum that is taken on the given line. -/
def Place.addend (field : Field) (line : Nat) (place : Place) : Int :=
  if field = .generatedColumn ∧ place.line ≠ line then 0
  else place.quantities[field.ordinal]?.getD 0

/-- A sum that is taken on the given line, over the given places. -/
def total (field : Field) (line : Nat) (places : List Place) : Int :=
  (places.map (Place.addend field line)).sum

/-- Whether 32 bits hold a number without a sign. -/
def InWord (n : Int) : Prop :=
  0 ≤ n ∧ n ≤ 4294967295

instance (n : Int) : Decidable (InWord n) :=
  inferInstanceAs (Decidable (_ ∧ _))

theorem total_concat (field : Field) (line : Nat) (places : List Place) (place : Place) :
    total field line (places ++ [place]) = total field line places + place.addend field line := by
  rw [total, List.map_append, List.sum_append, List.map_singleton, List.sum_singleton]
  rfl

@[simp] theorem addend_start (field : Field) (line n : Nat) :
    (Place.start n).addend field line = 0 := by
  simp [Place.addend, Place.quantities]

/-- A piece adds its quantities to the sums on its own line. -/
theorem addend_piece {field : Field} {line : Nat} {text : List Char} {values : List Int64}
    (h : Vlq.decode (String.ofList text) = .ok values) :
    (Place.piece line text).addend field line =
      (values[field.ordinal]?.map Int64.toInt).getD 0 := by
  rw [Place.addend, if_neg fun hother ↦ hother.2 rfl, Place.quantities, h, List.getElem?_map]

/-- Only the generated column depends on the line. -/
theorem total_of_ne {field : Field} (h : field ≠ .generatedColumn) (line line' : Nat)
    (places : List Place) : total field line places = total field line' places := by
  have hsame : ∀ place : Place, place.addend field line = place.addend field line' := by
    intro place
    rw [Place.addend, Place.addend, if_neg fun hother ↦ h hother.1, if_neg fun hother ↦ h hother.1]
  rw [total, total, funext hsame]

/-- A line starts in column zero. -/
theorem total_generatedColumn_of_lt {line : Nat} {places : List Place}
    (h : ∀ place ∈ places, place.line < line) : total .generatedColumn line places = 0 := by
  refine List.sum_eq_zero fun n hn ↦ ?_
  obtain ⟨place, hplace, rfl⟩ := List.mem_map.1 hn
  exact if_pos ⟨rfl, Nat.ne_of_lt (h place hplace)⟩

/-! ### What is wrong with a place -/

/-- What must hold at a place for reading to go on, if it stands behind the places `before`. -/
inductive Sound (before : List Place) : Place → Prop
  /-- Lines have 32-bit indices. -/
  | start {line : Nat} (hline : line < UInt32.size) : Sound before (.start line)
  /-- A piece is a run of one, four or five quantities, and 32 bits hold every sum that one of them
  is added to. A line with a piece has a number, and so has the line it points at. -/
  | piece {line : Nat} {text : List Char} {values : List Int64}
      (hvalues : Vlq.decode (String.ofList text) = .ok values)
      (hcount : values.length ∈ [1, 4, 5])
      (hsums : ∀ field : Field, field.ordinal < values.length →
        InWord (total field line (before ++ [.piece line text])))
      (hline : line + 1 < UInt32.size)
      (hsourceLine : 1 < values.length →
        total .sourceLine line (before ++ [.piece line text]) ≠ 4294967295) :
      Sound before (.piece line text)

/-- Whether reading goes on at each of some places. -/
def AllSound (places : List Place) : Prop :=
  ∀ before place after, places = before ++ place :: after → Sound before place

/-- The number that a message gives a line, which is counted from zero. -/
def messageLine (line : Nat) : UInt32 :=
  UInt32.ofNat (min (line + 1) 4294967295)

/-- The fault of a sum, if 32 bits do not hold it. -/
def sumFaults (field : Field) (line : Nat) (places : List Place) : List Error :=
  if InWord (total field line places) then []
  else [.outOfRange field (Int64.ofInt (total field line places)) (messageLine line)]

/-- The fault of a line counted from zero, if it has no 32-bit number. -/
def lineFaults (line : Nat) : List Error :=
  if line + 1 < UInt32.size then [] else [.position (.lineOutOfRange (line + 1))]

/-- The faults of an origin. -/
def originFaults (line : Nat) (places : List Place) : List Error :=
  sumFaults .sourceIndex line places ++ sumFaults .sourceLine line places ++
    sumFaults .sourceColumn line places ++ lineFaults (total .sourceLine line places).toNat

/-- The faults of a place behind the places `before`, in the order of the checks. -/
def faultsAt (before : List Place) : Place → List Error
  | .start line => if line < UInt32.size then [] else [.position (.lineOutOfRange line)]
  | .piece line text =>
    match Vlq.decode (String.ofList text) with
    | .error e => [.quantity e]
    | .ok values =>
      let upTo := before ++ [.piece line text]
      if values.length ∈ [1, 4, 5] then
        sumFaults .generatedColumn line upTo ++ lineFaults line ++
          (if values.length = 5 then sumFaults .nameIndex line upTo else []) ++
          (if 1 < values.length then originFaults line upTo else [])
      else [.fieldCount (String.ofList text) values.length]

theorem sumFaults_eq_nil_iff {field : Field} {line : Nat} {places : List Place} :
    sumFaults field line places = [] ↔ InWord (total field line places) := by
  rw [sumFaults]
  split <;> simp_all

theorem lineFaults_eq_nil_iff {line : Nat} : lineFaults line = [] ↔ line + 1 < UInt32.size := by
  rw [lineFaults]
  split <;> simp_all

/-- An origin is sound if its three sums are, and its line has a number. -/
theorem originFaults_eq_nil_iff {line : Nat} {places : List Place} :
    originFaults line places = [] ↔
      InWord (total .sourceIndex line places) ∧ InWord (total .sourceLine line places) ∧
        InWord (total .sourceColumn line places) ∧ total .sourceLine line places ≠ 4294967295 := by
  simp only [originFaults, List.append_eq_nil_iff, sumFaults_eq_nil_iff, lineFaults_eq_nil_iff,
    and_assoc]
  refine and_congr_right fun _ ↦ and_congr_right fun hline ↦ and_congr_right fun _ ↦ ?_
  obtain ⟨hlow, hhigh⟩ := hline
  rw [UInt32.size]
  omega

/-- The sums of a piece with one, four or five quantities, one by one. -/
theorem forall_ordinal_lt_iff {p : Field → Prop} {count : Nat} (h : count ∈ [1, 4, 5]) :
    (∀ field : Field, field.ordinal < count → p field) ↔
      p .generatedColumn ∧ (count = 5 → p .nameIndex) ∧
        (1 < count → p .sourceIndex ∧ p .sourceLine ∧ p .sourceColumn) := by
  have hcount : count = 1 ∨ count = 4 ∨ count = 5 := by simpa using h
  refine
    ⟨fun hall ↦ ⟨hall _ ?_, fun hfive ↦ hall _ ?_, fun hmany ↦ ⟨hall _ ?_, hall _ ?_, hall _ ?_⟩⟩,
      fun ⟨hcolumn, hname, horigin⟩ field hfield ↦ ?_⟩
  · show 0 < count
    omega
  · show 4 < count
    omega
  · exact hmany
  · show 2 < count
    omega
  · show 3 < count
    omega
  · cases field with
    | generatedColumn => exact hcolumn
    | sourceIndex => exact (horigin hfield).1
    | sourceLine => exact (horigin (Nat.lt_of_succ_lt hfield)).2.1
    | sourceColumn => exact (horigin (Nat.lt_of_succ_lt (Nat.lt_of_succ_lt hfield))).2.2
    | nameIndex =>
      have hlt : 4 < count := hfield
      exact hname (by omega)

section Place

variable {before : List Place} {line : Nat} {text : List Char}

theorem not_sound_piece {e : Vlq.Error} (h : Vlq.decode (String.ofList text) = .error e) :
    ¬ Sound before (.piece line text) := by
  rintro (_ | ⟨hok, _⟩)
  rw [h] at hok
  cases hok

theorem sound_piece_iff {values : List Int64} (h : Vlq.decode (String.ofList text) = .ok values) :
    Sound before (.piece line text) ↔
      values.length ∈ [1, 4, 5] ∧
        (∀ field : Field, field.ordinal < values.length →
          InWord (total field line (before ++ [.piece line text]))) ∧
        line + 1 < UInt32.size ∧
        (1 < values.length →
          total .sourceLine line (before ++ [.piece line text]) ≠ 4294967295) := by
  constructor
  · rintro (_ | ⟨hvalues, hcount, hsums, hline, hsourceLine⟩)
    obtain rfl := Except.ok.inj (hvalues.symm.trans h)
    exact ⟨hcount, hsums, hline, hsourceLine⟩
  · rintro ⟨hcount, hsums, hline, hsourceLine⟩
    exact .piece h hcount hsums hline hsourceLine

/-- A place without faults is a sound one. -/
theorem faultsAt_eq_nil_iff {place : Place} : faultsAt before place = [] ↔ Sound before place := by
  cases place with
  | start line =>
    rw [faultsAt, ite_eq_left_iff]
    constructor
    · intro h
      exact .start (not_not.1 fun hline ↦ List.cons_ne_nil _ _ (h hline))
    · rintro ⟨hline⟩ hnot
      exact absurd hline hnot
  | piece line text =>
    rw [faultsAt]
    split
    next e hvalues => exact iff_of_false (List.cons_ne_nil _ _) (not_sound_piece hvalues)
    next values hvalues =>
      rw [sound_piece_iff hvalues]
      split
      next hcount =>
        rw [forall_ordinal_lt_iff hcount]
        simp only [List.append_eq_nil_iff, ite_eq_right_iff, sumFaults_eq_nil_iff,
          lineFaults_eq_nil_iff, originFaults_eq_nil_iff]
        constructor
        · rintro ⟨⟨⟨hcolumn, hline⟩, hname⟩, horigin⟩
          refine ⟨hcount, ⟨hcolumn, hname, fun hmany ↦ ?_⟩, hline, fun hmany ↦ ?_⟩
          · exact ⟨(horigin hmany).1, (horigin hmany).2.1, (horigin hmany).2.2.1⟩
          · exact (horigin hmany).2.2.2
        · rintro ⟨-, ⟨hcolumn, hname, horigin⟩, hline, hsourceLine⟩
          refine ⟨⟨⟨hcolumn, hline⟩, hname⟩, fun hmany ↦ ?_⟩
          obtain ⟨hsource, hsum, hsourceColumn⟩ := horigin hmany
          exact ⟨hsource, hsum, hsourceColumn, hsourceLine hmany⟩
      next hcount => exact iff_of_false (List.cons_ne_nil _ _) fun h ↦ hcount h.1

end Place

/-! ### What a place stands for -/

/-- The 32-bit number of a sum. -/
def word (field : Field) (line : Nat) (places : List Place) : UInt32 :=
  UInt32.ofNat (total field line places).toNat

/-- The origin that the sums point at, with its line counted from one. -/
def originOf (line : Nat) (places : List Place) (name : Option UInt32) : Origin where
  source := word .sourceIndex line places
  position :=
    ⟨UInt32.ofNat ((total .sourceLine line places).toNat + 1), word .sourceColumn line places⟩
  name := name

/-- The segment of a piece behind the places `before`, with its line counted from one. It has an
origin if it has more than one quantity, and a name if it has five. -/
def segmentOf (before : List Place) (line : Nat) (text : List Char) : Segment :=
  let count := (Place.piece line text).quantities.length
  let upTo := before ++ [.piece line text]
  { generated := ⟨UInt32.ofNat (line + 1), word .generatedColumn line upTo⟩
    origin :=
      if 1 < count then
        some (originOf line upTo (if count = 5 then some (word .nameIndex line upTo) else none))
      else none }

/-- The segments of a place behind the places `before`: one of a piece, and none where a line
starts. -/
def segmentsAt (before : List Place) : Place → List Segment
  | .start _ => []
  | .piece line text => [segmentOf before line text]

/-! ### Going through the places -/

section Along

variable {α : Type} {f : List Place → Place → List α}

/-- What is found at each of some places behind the places `before`, one after another. -/
def along (f : List Place → Place → List α) (before : List Place) : List Place → List α
  | [] => []
  | place :: after => f before place ++ along f (before ++ [place]) after

theorem along_append (f : List Place → Place → List α) (before here there : List Place) :
    along f before (here ++ there) =
      along f before here ++ along f (before ++ here) there := by
  induction here generalizing before with
  | nil => rw [List.append_nil, along, List.nil_append, List.nil_append]
  | cons place here ih =>
    rw [List.cons_append, along, ih, along, List.append_assoc, List.append_assoc,
      List.singleton_append]

theorem along_eq_nil_iff {before places : List Place} :
    along f before places = [] ↔
      ∀ front place rear, places = front ++ place :: rear → f (before ++ front) place = [] := by
  induction places generalizing before with
  | nil => simp [along]
  | cons place places ih =>
    rw [along, List.append_eq_nil_iff, ih]
    constructor
    · rintro ⟨hplace, hplaces⟩ (- | ⟨first, front⟩) other rear hsplit
      · obtain ⟨rfl, -⟩ := List.cons.inj hsplit
        rwa [List.append_nil]
      · obtain ⟨rfl, hrest⟩ := List.cons.inj hsplit
        have hother := hplaces front other rear hrest
        rwa [List.append_assoc, List.singleton_append] at hother
    · intro hall
      refine ⟨?_, fun front other rear hrest ↦ ?_⟩
      · have hplace := hall [] place places rfl
        rwa [List.append_nil] at hplace
      · have hother := hall (place :: front) other rear (by rw [hrest, List.cons_append])
        rwa [List.append_assoc, List.singleton_append]

/-- The first of what is found is found first at a place with nothing before. -/
theorem head?_along_eq_some_iff {before places : List Place} {a : α} :
    (along f before places).head? = some a ↔
      ∃ front place rear, places = front ++ place :: rear ∧ along f before front = [] ∧
        (f (before ++ front) place).head? = some a := by
  induction places generalizing before with
  | nil => simp [along]
  | cons place places ih =>
    rw [along, List.head?_append]
    rcases hplace : f before place with - | ⟨b, bs⟩
    · rw [List.head?_nil, Option.none_or, ih]
      constructor
      · rintro ⟨front, other, rear, rfl, hfront, hother⟩
        refine ⟨place :: front, other, rear, rfl, by rw [along, hplace, hfront]; rfl, ?_⟩
        rwa [List.append_assoc, List.singleton_append] at hother
      · rintro ⟨- | ⟨first, front⟩, other, rear, hsplit, hfront, hother⟩
        · obtain ⟨rfl, -⟩ := List.cons.inj hsplit
          rw [List.append_nil, hplace] at hother
          cases hother
        · obtain ⟨rfl, rfl⟩ := List.cons.inj hsplit
          rw [along, hplace, List.nil_append] at hfront
          exact ⟨front, other, rear, rfl, hfront, by
            rwa [List.append_assoc, List.singleton_append]⟩
    · rw [List.head?_cons, Option.some_or]
      constructor
      · rintro h
        exact ⟨[], place, places, rfl, rfl, by rw [List.append_nil, hplace, ← h]; rfl⟩
      · rintro ⟨- | ⟨first, front⟩, other, rear, hsplit, hfront, hother⟩
        · obtain ⟨rfl, -⟩ := List.cons.inj hsplit
          rwa [List.append_nil, hplace] at hother
        · obtain ⟨rfl, -⟩ := List.cons.inj hsplit
          rw [along, hplace] at hfront
          cases hfront

end Along

/-- A text whose places are sound is one without faults. -/
theorem allSound_iff {places : List Place} :
    AllSound places ↔ along faultsAt [] places = [] := by
  simp only [along_eq_nil_iff, List.nil_append, faultsAt_eq_nil_iff]
  rfl

/-! ### The segments of a text -/

/-- The segments of the places that are on the given line, in the order of the text. -/
def segmentsOn (line : Nat) (before : List Place) (places : List Place) : List Segment :=
  along (fun before place ↦ if place.line = line then segmentsAt before place else []) before places

/-- Segments sorted stably by their column. -/
def byColumn (segments : List Segment) : List Segment :=
  segments.mergeSort fun a b ↦ a.generated.column ≤ b.generated.column

/-- The segments of lines behind the places `before`, if the first of them has the given index. -/
def segmentsFrom (index : Nat) (before : List Place) (lines : List (List Char)) : List Segment :=
  (List.range' index lines.length).flatMap fun line ↦
    byColumn (segmentsOn line before (placesFrom index lines))

/-- The segments of a text. -/
def segmentsOf (text : String) : List Segment :=
  segmentsFrom 0 [] (linesOf text)

section Lines

variable {line : Nat} {before places : List Place}

theorem segmentsOn_eq_along (h : ∀ place ∈ places, place.line = line) :
    segmentsOn line before places = along segmentsAt before places := by
  induction places generalizing before with
  | nil => rfl
  | cons place places ih =>
    rw [segmentsOn, along, along, if_pos (h place List.mem_cons_self)]
    exact congrArg _ (ih fun other hother ↦ h other (List.mem_cons_of_mem place hother))

theorem segmentsOn_eq_nil (h : ∀ place ∈ places, place.line ≠ line) :
    segmentsOn line before places = [] := by
  refine along_eq_nil_iff.2 fun front place rear hsplit ↦ if_neg (h place ?_)
  rw [hsplit]
  exact List.mem_append_right front List.mem_cons_self

theorem segmentsOn_append (line : Nat) (before here there : List Place) :
    segmentsOn line before (here ++ there) =
      segmentsOn line before here ++ segmentsOn line (before ++ here) there :=
  along_append _ before here there

/-- A line more in front. -/
theorem segmentsFrom_cons (index : Nat) (before : List Place) (line : List Char)
    (lines : List (List Char)) :
    segmentsFrom index before (line :: lines) =
      byColumn (along segmentsAt before (placesOn index line)) ++
        segmentsFrom (index + 1) (before ++ placesOn index line) lines := by
  have hhere : segmentsOn index before (placesFrom index (line :: lines)) =
      along segmentsAt before (placesOn index line) := by
    rw [placesFrom_cons, segmentsOn_append, segmentsOn_eq_along fun _ ↦ line_of_mem_placesOn,
      segmentsOn_eq_nil fun place hplace ↦ ?_, List.append_nil]
    exact Nat.ne_of_gt (le_line_of_mem_placesFrom hplace)
  have hthere : ∀ n ∈ List.range' (index + 1) lines.length,
      segmentsOn n before (placesFrom index (line :: lines)) =
        segmentsOn n (before ++ placesOn index line) (placesFrom (index + 1) lines) := by
    intro n hn
    rw [placesFrom_cons, segmentsOn_append, segmentsOn_eq_nil fun place hplace ↦ ?_,
      List.nil_append]
    rw [line_of_mem_placesOn hplace]
    exact Nat.ne_of_lt (List.mem_range'_1.1 hn).1
  rw [segmentsFrom, List.length_cons, List.range'_succ, List.flatMap_cons, hhere, segmentsFrom]
  exact congrArg _ (List.flatMap_congr fun n hn ↦ congrArg byColumn (hthere n hn))

end Lines

/-! ### Places that reading has passed -/

/-- Whether reading gets past some places: they never go back a line, and all of them are sound. -/
structure Passed (before : List Place) : Prop where
  /-- The lines do not go backwards. -/
  ordered : before.Pairwise fun a b ↦ a.line ≤ b.line
  /-- No place has a fault. -/
  sound : AllSound before

namespace Passed

variable {before : List Place} {place : Place} {line : Nat}

theorem nil : Passed [] :=
  ⟨List.Pairwise.nil, allSound_iff.2 rfl⟩

/-- More places are passed if they are on no earlier line and have no fault. -/
theorem append_iff {after : List Place} :
    Passed (before ++ after) ↔
      Passed before ∧ (after.Pairwise fun a b ↦ a.line ≤ b.line) ∧
        (∀ a ∈ before, ∀ b ∈ after, a.line ≤ b.line) ∧ along faultsAt before after = [] := by
  constructor
  · rintro ⟨hordered, hsound⟩
    obtain ⟨hbefore, hafter, hlines⟩ := List.pairwise_append.1 hordered
    rw [allSound_iff, along_append, List.append_eq_nil_iff] at hsound
    exact ⟨⟨hbefore, allSound_iff.2 hsound.1⟩, hafter, hlines, hsound.2⟩
  · rintro ⟨⟨hbefore, hsound⟩, hafter, hlines, hfaults⟩
    refine ⟨List.pairwise_append.2 ⟨hbefore, hafter, hlines⟩, ?_⟩
    rw [allSound_iff, along_append, allSound_iff.1 hsound, List.nil_append]
    exact hfaults

/-- One place more is passed if it is sound. -/
theorem concat_iff :
    Passed (before ++ [place]) ↔
      Passed before ∧ (∀ earlier ∈ before, earlier.line ≤ place.line) ∧ Sound before place := by
  rw [append_iff, along, along, List.append_nil, faultsAt_eq_nil_iff]
  simp

/-- 32 bits hold every sum over places that were passed. -/
theorem inWord_total (h : Passed before) (hline : ∀ earlier ∈ before, earlier.line ≤ line)
    (field : Field) : InWord (total field line before) := by
  induction before using List.reverseRecOn generalizing line with
  | nil => exact (by decide : InWord 0)
  | append_singleton front last ih =>
    obtain ⟨hfront, hle, hsound⟩ := concat_iff.1 h
    have hlast : last.line ≤ line := hline last (by simp)
    cases hsound with
    | start =>
      rw [total_concat, addend_start, Int.add_zero]
      exact ih hfront fun earlier hearlier ↦ hline earlier (List.mem_append_left _ hearlier)
    | @piece n text values hvalues hcount hsums hnumber hsourceLine =>
      by_cases hother : field = .generatedColumn ∧ n ≠ line
      · -- the line is a later one, and its column starts anew
        obtain ⟨rfl, hne⟩ := hother
        have hlt : n < line := Nat.lt_of_le_of_ne hlast hne
        rw [total_generatedColumn_of_lt]
        · decide
        · exact List.forall_mem_append.2
            ⟨fun earlier hearlier ↦ Nat.lt_of_le_of_lt (hle earlier hearlier) hlt,
              List.forall_mem_singleton.2 hlt⟩
      · have hsame : total field line (front ++ [.piece n text]) =
            total field n (front ++ [.piece n text]) := by
          by_cases hcolumn : field = .generatedColumn
          · rw [not_not.1 fun hne ↦ hother ⟨hcolumn, hne⟩]
          · exact total_of_ne hcolumn line n _
        rw [hsame]
        by_cases hused : field.ordinal < values.length
        · exact hsums field hused
        · rw [total_concat, addend_piece hvalues, List.getElem?_eq_none (Nat.not_lt.1 hused)]
          exact (Int.add_zero _).symm ▸ ih hfront hle

end Passed

/-- A quantity has fewer than sixty bits. -/
theorem natAbs_addend_lt (field : Field) (line : Nat) (place : Place) :
    (place.addend field line).natAbs < 2 ^ 59 := by
  rw [Place.addend]
  split
  next => decide
  next =>
    rcases hget : place.quantities[field.ordinal]? with - | n
    · decide
    · have hmem := List.mem_of_getElem? hget
      cases place with
      | start => cases hmem
      | piece line text =>
        rw [Place.quantities] at hmem
        split at hmem
        next values hvalues =>
          obtain ⟨value, hvalue, rfl⟩ := List.mem_map.1 hmem
          exact Vlq.fits_of_decode hvalues value hvalue
        next => cases hmem

/-- A 64-bit word holds the sums at the first place that reading has not passed. -/
theorem Passed.toInt_ofInt_total {before : List Place} {place : Place} (h : Passed before)
    (hline : ∀ earlier ∈ before, earlier.line ≤ place.line) (field : Field) :
    (Int64.ofInt (total field place.line (before ++ [place]))).toInt =
      total field place.line (before ++ [place]) := by
  obtain ⟨hlow, hhigh⟩ := h.inWord_total hline field
  have hlt := natAbs_addend_lt field place.line place
  rw [total_concat]
  exact Int64.toInt_ofInt_of_le (by omega) (by omega)

end SourceChain.Mappings
