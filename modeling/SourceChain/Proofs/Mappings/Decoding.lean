import SourceChain.Proofs.Mappings.RunningSums

/-!
# Reading a mappings text gives what its sums say

Reading goes through a text with a cursor of 64-bit words and stops at the first check that fails.
A check that fails with the first of some faults, and passes if there are none, is a `verdict` on
them, and checks one after another are a verdict on all their faults (`verdict_bind`). In this form
each part of the reader gives the meaning of its part of the text: of a piece
(`decodePiece_eq_verdict`), of a line (`decodeLine_eq_verdict`), and of the lines
(`decodeLines_eq_verdict`).

The cursor is the sums over the places that were passed, reduced to 64 bits. Since reducing respects
addition, this holds whatever the sums are. Only where a sum is compared with the bounds must the
word be the sum itself, and there all places before have been passed.
-/

namespace SourceChain.Mappings

/-! ### Verdicts -/

section Verdict

variable {α β : Type}

/-- What checks come to that look for the given faults, and give `a` if there are none. -/
def verdict (faults : List Error) (a : α) : Except Error α :=
  match faults with
  | [] => .ok a
  | e :: _ => .error e

@[simp] theorem verdict_nil (a : α) : verdict [] a = .ok a :=
  rfl

theorem verdict_eq_ok_iff {faults : List Error} {a b : α} :
    verdict faults a = .ok b ↔ faults = [] ∧ b = a := by
  cases faults <;> simp [verdict, eq_comm]

theorem verdict_eq_error_iff {faults : List Error} {a : α} {e : Error} :
    verdict faults a = .error e ↔ faults.head? = some e := by
  cases faults <;> simp [verdict]

/-- The later of two checks is made only if the earlier one finds nothing. -/
theorem verdict_bind {faults later : List Error} {a : α} {b : β} {f : α → Except Error β}
    (h : faults = [] → f a = verdict later b) :
    verdict faults a >>= f = verdict (faults ++ later) b := by
  cases faults with
  | nil => exact h rfl
  | cons e faults => rfl

/-- What is made of the result is made of it after the check. -/
theorem verdict_bind_ok (faults : List Error) (a : α) (f : α → β) :
    (verdict faults a >>= fun b ↦ .ok (f b)) = verdict faults (f a) := by
  cases faults <;> rfl

end Verdict

/-! ### The cursor -/

/-- The sums over some places in 64-bit words, as reading keeps them. -/
def cursorOf (line : Nat) (places : List Place) : Totals Int64 where
  source := Int64.ofInt (total .sourceIndex line places)
  line := Int64.ofInt (total .sourceLine line places)
  column := Int64.ofInt (total .sourceColumn line places)
  name := Int64.ofInt (total .nameIndex line places)

/-- The column over some places in a 64-bit word. -/
def columnOf (line : Nat) (places : List Place) : Int64 :=
  Int64.ofInt (total .generatedColumn line places)

/-- The cursor is the same on every line. -/
theorem cursorOf_eq (line line' : Nat) (places : List Place) :
    cursorOf line places = cursorOf line' places := by
  have hsame : ∀ field ≠ .generatedColumn, total field line places = total field line' places :=
    fun field hfield ↦ total_of_ne hfield line line' places
  rw [cursorOf, cursorOf, hsame _ (by decide), hsame _ (by decide), hsame _ (by decide),
    hsame _ (by decide)]

section Cursor

variable {before : List Place} {line : Nat} {text : List Char} {values : List Int64}

/-- A piece adds its quantities to the cursor. -/
theorem ofInt_total_concat (h : Vlq.decode (String.ofList text) = .ok values) (field : Field) :
    Int64.ofInt (total field line (before ++ [.piece line text])) =
      Int64.ofInt (total field line before) + values[field.ordinal]?.getD 0 := by
  rw [total_concat, Int64.ofInt_add, addend_piece h]
  cases values[field.ordinal]? with
  | none => rfl
  | some value => rw [Option.map_some, Option.getD_some, Option.getD_some, Int64.ofInt_toInt]

theorem cursorOf_concat_piece (h : Vlq.decode (String.ofList text) = .ok values) :
    cursorOf line (before ++ [.piece line text]) =
      ⟨(cursorOf line before).source + values[Field.sourceIndex.ordinal]?.getD 0,
        (cursorOf line before).line + values[Field.sourceLine.ordinal]?.getD 0,
        (cursorOf line before).column + values[Field.sourceColumn.ordinal]?.getD 0,
        (cursorOf line before).name + values[Field.nameIndex.ordinal]?.getD 0⟩ := by
  simp only [cursorOf, ofInt_total_concat h]

/-- The start of a line leaves the cursor where it is. -/
theorem cursorOf_concat_start (n : Nat) :
    cursorOf line (before ++ [.start n]) = cursorOf line before := by
  simp only [cursorOf, total_concat, addend_start, Int.add_zero]

end Cursor

/-! ### Single checks -/

section Checks

variable {line : Nat} {places : List Place}

theorem displayLine_ofNat (h : line < UInt32.size) :
    displayLine (UInt32.ofNat line) = messageLine line := by
  have hbound : line < 4294967296 := h
  rw [displayLine, UInt32.toNat_ofNat_of_lt' h, messageLine]
  split
  next hlt =>
    have hlt : line + 1 < 4294967296 := hlt
    rw [Nat.min_eq_left (by omega), UInt32.ofNat_add]
    rfl
  next hge =>
    have hge : ¬ line + 1 < 4294967296 := hge
    rw [Nat.min_eq_right (by omega), show line = 4294967295 by omega]

/-- A sum that 64 bits hold is taken for a 32-bit number unless it has a fault. -/
theorem word32_eq_verdict {field : Field}
    (hexact : (Int64.ofInt (total field line places)).toInt = total field line places) :
    word32 field (messageLine line) (Int64.ofInt (total field line places)) =
      verdict (sumFaults field line places) (word field line places) := by
  have hbounds : 0 ≤ Int64.ofInt (total field line places) ∧
      Int64.ofInt (total field line places) ≤ 4294967295 ↔ InWord (total field line places) := by
    rw [Int64.le_iff_toInt_le, Int64.le_iff_toInt_le, hexact]
    rfl
  rw [word32, sumFaults]
  by_cases h : InWord (total field line places)
  · rw [if_pos (hbounds.2 h), if_pos h, Int64.toNatClampNeg, hexact]
    rfl
  · rw [if_neg fun hword ↦ h (hbounds.1 hword), if_neg h]
    rfl

/-- A line counted from zero is taken for a line of a position unless it has a fault. -/
theorem zeroBased_eq_verdict (h : line < UInt32.size) (column : UInt32) :
    zeroBased (UInt32.ofNat line) column =
      verdict (lineFaults line) ⟨UInt32.ofNat (line + 1), column⟩ := by
  rw [zeroBased, Position.ofZeroBased, UInt32.toNat_ofNat_of_lt' h, lineFaults, UInt32.ofNat_add]
  by_cases hnumber : line + 1 < UInt32.size
  · rw [if_pos hnumber, if_pos hnumber]
    rfl
  · rw [if_neg hnumber, if_neg hnumber]
    rfl

/-- The sums of an origin are checked in turn. -/
theorem origin_eq_verdict
    (hexact : ∀ field, (Int64.ofInt (total field line places)).toInt = total field line places)
    (name : Option UInt32) :
    (cursorOf line places).origin (messageLine line) name =
      verdict (originFaults line places) (originOf line places name) := by
  have hposition : sumFaults .sourceLine line places = [] →
      zeroBased (word .sourceLine line places) (word .sourceColumn line places) =
        verdict (lineFaults (total .sourceLine line places).toNat)
          (originOf line places name).position := by
    intro hline
    obtain ⟨hlow, hhigh⟩ := sumFaults_eq_nil_iff.1 hline
    refine zeroBased_eq_verdict ?_ _
    rw [UInt32.size]
    omega
  rw [originFaults, List.append_assoc, List.append_assoc, Totals.origin_eq, cursorOf,
    word32_eq_verdict (hexact _)]
  refine verdict_bind fun _ ↦ ?_
  rw [word32_eq_verdict (hexact _)]
  refine verdict_bind fun hline ↦ ?_
  rw [word32_eq_verdict (hexact _)]
  refine verdict_bind fun _ ↦ ?_
  rw [hposition hline]
  exact verdict_bind_ok _ _ _

end Checks

/-! ### Pieces -/

/-- One, four or five quantities mean something, and no other number of them. -/
theorem ofValues?_eq_none_iff {values : List Int64} :
    Deltas.ofValues? values = none ↔ values.length ∉ [1, 4, 5] := by
  rcases values with _ | ⟨a, _ | ⟨b, _ | ⟨c, _ | ⟨d, _ | ⟨e, _ | ⟨f, rest⟩⟩⟩⟩⟩⟩ <;>
    simp [Deltas.ofValues?]

section Pieces

variable {before : List Place} {line : Nat} {text : List Char} {values : List Int64}
  {deltas : Deltas Int64}

theorem length_mem_of_ofValues? (h : Deltas.ofValues? values = some deltas) :
    values.length ∈ [1, 4, 5] := by
  by_contra hcount
  rw [ofValues?_eq_none_iff.2 hcount] at h
  cases h

theorem column_of_ofValues? (h : Deltas.ofValues? values = some deltas) :
    deltas.column = values[Field.generatedColumn.ordinal]?.getD 0 := by
  unfold Deltas.ofValues? at h
  split at h
  next => exact Option.some.inj h ▸ rfl
  next => exact Option.some.inj h ▸ rfl
  next => exact Option.some.inj h ▸ rfl
  next => cases h

theorem origin_segmentOf (h : Vlq.decode (String.ofList text) = .ok values) :
    (segmentOf before line text).origin =
      if 1 < values.length then
        some (originOf line (before ++ [.piece line text])
          (if values.length = 5 then some (word .nameIndex line (before ++ [.piece line text]))
            else none))
      else none := by
  have hcount : (Place.piece line text).quantities.length = values.length := by
    rw [Place.quantities, h, List.length_map]
  rw [segmentOf, hcount]

/-- The quantities behind the first are checked by what they are added to. -/
theorem advance_eq_verdict (hvalues : Vlq.decode (String.ofList text) = .ok values)
    (hdeltas : Deltas.ofValues? values = some deltas)
    (hexact : ∀ field, (Int64.ofInt (total field line (before ++ [.piece line text]))).toInt =
      total field line (before ++ [.piece line text])) :
    (cursorOf line before).advance (messageLine line) deltas =
      verdict
        ((if values.length = 5 then
            sumFaults .nameIndex line (before ++ [.piece line text]) else []) ++
          (if 1 < values.length then
            originFaults line (before ++ [.piece line text]) else []))
        ((segmentOf before line text).origin, cursorOf line (before ++ [.piece line text])) := by
  have hcursor : cursorOf line (before ++ [.piece line text]) = _ := cursorOf_concat_piece hvalues
  rw [origin_segmentOf hvalues]
  unfold Deltas.ofValues? at hdeltas
  split at hdeltas
  next c =>
    -- no quantity behind the first, and no check
    obtain rfl := Option.some.inj hdeltas
    rw [hcursor]
    simp [Totals.advance_generated, verdict, Field.ordinal]
  next c source sourceLine sourceColumn =>
    obtain rfl := Option.some.inj hdeltas
    have hafter : cursorOf line (before ++ [.piece line text]) =
        ⟨(cursorOf line before).source + source, (cursorOf line before).line + sourceLine,
          (cursorOf line before).column + sourceColumn, (cursorOf line before).name⟩ := by
      rw [hcursor]
      exact congrArg _ (Int64.add_zero _)
    simp only [Totals.advance_mapped]
    rw [← hafter, origin_eq_verdict hexact]
    exact verdict_bind_ok _ _ fun origin ↦ (some origin, _)
  next c source sourceLine sourceColumn name =>
    obtain rfl := Option.some.inj hdeltas
    have hafter : cursorOf line (before ++ [.piece line text]) =
        ⟨(cursorOf line before).source + source, (cursorOf line before).line + sourceLine,
          (cursorOf line before).column + sourceColumn, (cursorOf line before).name + name⟩ :=
      hcursor
    have hname : (cursorOf line before).name + name =
        Int64.ofInt (total .nameIndex line (before ++ [.piece line text])) :=
      (congrArg Totals.name hafter).symm
    simp only [Totals.advance_named]
    rw [← hafter, hname, word32_eq_verdict (hexact _)]
    -- the name is looked at before the rest of the origin
    refine verdict_bind fun _ ↦ ?_
    rw [origin_eq_verdict hexact]
    exact verdict_bind_ok _ _ fun origin ↦ (some origin, _)
  next => cases hdeltas

/-- Reading a piece behind places that were passed gives its segment, or its first fault. -/
theorem decodePiece_eq_verdict (hpassed : Passed before)
    (hbefore : ∀ earlier ∈ before, earlier.line ≤ line) (hline : line < UInt32.size)
    (text : List Char) :
    decodePiece (UInt32.ofNat line) (columnOf line before) (cursorOf line before) text =
      verdict (faultsAt before (.piece line text))
        (segmentOf before line text, columnOf line (before ++ [.piece line text]),
          cursorOf line (before ++ [.piece line text])) := by
  have hexact : ∀ field,
      (Int64.ofInt (total field line (before ++ [.piece line text]))).toInt =
        total field line (before ++ [.piece line text]) :=
    @Passed.toInt_ofInt_total before (.piece line text) hpassed hbefore
  rw [decodePiece_eq, faultsAt]
  rcases hvalues : Vlq.decode (String.ofList text) with e | values
  · rfl
  dsimp only
  rcases hdeltas : Deltas.ofValues? values with - | deltas
  · rw [if_neg (ofValues?_eq_none_iff.1 hdeltas)]
    rfl
  · have hcount := length_mem_of_ofValues? hdeltas
    have hcolumn : columnOf line before + deltas.column =
        columnOf line (before ++ [.piece line text]) := by
      rw [column_of_ofValues? hdeltas]
      exact (ofInt_total_concat hvalues .generatedColumn).symm
    simp only [hcolumn, displayLine_ofNat hline]
    rw [if_pos hcount, columnOf, word32_eq_verdict (hexact _), List.append_assoc,
      List.append_assoc]
    refine verdict_bind fun _ ↦ ?_
    rw [zeroBased_eq_verdict hline]
    refine verdict_bind fun _ ↦ ?_
    rw [advance_eq_verdict hvalues hdeltas hexact]
    exact verdict_bind_ok _ _ fun result ↦ _

end Pieces

/-! ### Lines -/

section Lines

variable {before : List Place} {line : Nat}

/-- Reading the pieces of a line, of which the empty ones are skipped, gives their segments, or the
first fault along them. -/
theorem decodePieces_eq_verdict (hpassed : Passed before)
    (hbefore : ∀ earlier ∈ before, earlier.line ≤ line) (hline : line < UInt32.size)
    (done : Array Segment) (texts : List (List Char)) {ahead : List Place}
    (hahead : (texts.filter (· ≠ [])).map (.piece line) = ahead) :
    decodePieces (UInt32.ofNat line) done (columnOf line before) (cursorOf line before) texts =
      verdict (along faultsAt before ahead)
        (done ++ along segmentsAt before ahead, cursorOf line (before ++ ahead)) := by
  induction texts generalizing before done ahead with
  | nil =>
    obtain rfl := hahead
    rw [decodePieces_nil, List.filter_nil, List.map_nil, along, along, List.append_nil]
    simp
  | cons text texts ih =>
    rcases text with - | ⟨c, cs⟩
    · rw [decodePieces_nil_cons]
      exact ih hpassed hbefore done hahead
    · obtain ⟨later, rfl, hlater⟩ : ∃ later, Place.piece line (c :: cs) :: later = ahead ∧
          (texts.filter (· ≠ [])).map (.piece line) = later :=
        ⟨_, by rw [← hahead]; simp, rfl⟩
      rw [decodePieces_cons, decodePiece_eq_verdict hpassed hbefore hline, along]
      · rcases hfaults : faultsAt before (.piece line (c :: cs)) with - | ⟨e, faults⟩
        · have hpassed' : Passed (before ++ [.piece line (c :: cs)]) :=
            Passed.concat_iff.2 ⟨hpassed, hbefore, faultsAt_eq_nil_iff.1 hfaults⟩
          have hbefore' : ∀ earlier ∈ before ++ [.piece line (c :: cs)], earlier.line ≤ line :=
            List.forall_mem_append.2 ⟨hbefore, List.forall_mem_singleton.2 (Nat.le_refl line)⟩
          simp only [verdict_nil]
          rw [ih hpassed' hbefore' _ hlater, along]
          simp [segmentsAt]
        · rfl
      · exact List.cons_ne_nil c cs

/-- Reading a line gives its segments sorted by column, or the first fault along it. -/
theorem decodeLine_eq_verdict (hpassed : Passed before)
    (hbefore : ∀ earlier ∈ before, earlier.line < line) (hline : line < UInt32.size)
    (text : List Char) :
    decodeLine (UInt32.ofNat line) (cursorOf line before) text =
      verdict (along faultsAt before (placesOn line text))
        (byColumn (along segmentsAt before (placesOn line text)),
          cursorOf line (before ++ placesOn line text)) := by
  have hstart : faultsAt before (.start line) = [] := if_pos hline
  have hle : ∀ earlier ∈ before, earlier.line ≤ line :=
    fun earlier hearlier ↦ Nat.le_of_lt (hbefore earlier hearlier)
  have hpassed' : Passed (before ++ [.start line]) :=
    Passed.concat_iff.2 ⟨hpassed, hle, .start hline⟩
  have hbefore' : ∀ earlier ∈ before ++ [.start line], earlier.line ≤ line :=
    List.forall_mem_append.2 ⟨hle, List.forall_mem_singleton.2 (Nat.le_refl line)⟩
  have hcolumn : columnOf line (before ++ [.start line]) = 0 := by
    rw [columnOf, total_concat, addend_start, total_generatedColumn_of_lt hbefore]
    rfl
  have hpieces := decodePieces_eq_verdict hpassed' hbefore' hline #[] (text.splitOn ',') rfl
  rw [hcolumn, cursorOf_concat_start] at hpieces
  rw [decodeLine_eq, hpieces, placesOn, along, along, hstart, List.append_assoc]
  show _ = verdict (along faultsAt _ ((piecesOf text).map (.piece line))) _
  rw [piecesOf]
  generalize along faultsAt _ _ = faults
  cases faults with
  | nil => simp [byColumn, segmentsAt]
  | cons e faults => rfl

/-- Reading lines gives their segments line by line, or the first fault along them. -/
theorem decodeLines_eq_verdict {index : Nat} (hpassed : Passed before)
    (hbefore : ∀ earlier ∈ before, earlier.line < index) (done : Array Segment)
    (lines : List (List Char)) :
    decodeLines done (cursorOf index before) index lines =
      verdict (along faultsAt before (placesFrom index lines))
        (done ++ segmentsFrom index before lines) := by
  induction lines generalizing before index done with
  | nil => simp [decodeLines_nil, placesFrom, along, segmentsFrom]
  | cons line lines ih =>
    rw [decodeLines_cons, placesFrom_cons, along_append, segmentsFrom_cons]
    split
    next hindex =>
      rw [decodeLine_eq_verdict hpassed hbefore hindex]
      rcases hfaults : along faultsAt before (placesOn index line) with - | ⟨e, faults⟩
      · have hpassed' : Passed (before ++ placesOn index line) := by
          refine Passed.append_iff.2
            ⟨hpassed, pairwise_line_placesOn index line, fun a ha b hb ↦ ?_, hfaults⟩
          rw [line_of_mem_placesOn hb]
          exact Nat.le_of_lt (hbefore a ha)
        have hbefore' : ∀ earlier ∈ before ++ placesOn index line, earlier.line < index + 1 :=
          List.forall_mem_append.2
            ⟨fun earlier hearlier ↦ Nat.lt_succ_of_lt (hbefore earlier hearlier),
              fun earlier hearlier ↦ Nat.lt_succ_of_le
                (Nat.le_of_eq (line_of_mem_placesOn hearlier))⟩
        simp only [verdict_nil]
        rw [cursorOf_eq index (index + 1), ih hpassed' hbefore', List.nil_append]
        refine congrArg (verdict _) (Array.ext' ?_)
        simp [List.append_assoc]
      · rfl
    next hindex =>
      have hstart : faultsAt before (.start index) = [.position (.lineOutOfRange index)] :=
        if_neg hindex
      rw [placesOn, along, hstart]
      rfl

end Lines

/-! ### Whole texts -/

/-- Reading a text gives its segments, or the first fault along its places. -/
theorem decode_eq_verdict (text : String) :
    decode text = verdict (along faultsAt [] (places text)) (ofSorted (segmentsOf text)) := by
  have hlines : decodeLines #[] {} 0 (text.toList.splitOn ';') =
      verdict (along faultsAt [] (places text)) (#[] ++ segmentsOf text) :=
    decodeLines_eq_verdict Passed.nil (by simp) #[] (linesOf text)
  rw [decode_eq, decodeSegments_eq, hlines]
  cases along faultsAt [] (places text) with
  | nil => simp
  | cons e faults => rfl

/-- Reading a text succeeds exactly if every place of it is sound, and gives the segments that its
sums describe, sorted by column on each line. Otherwise the error is the first fault of the first
place that is not sound. Up to there 64 bits hold every sum, so no error reports a wrapped one. -/
theorem decode_determined_by_sums (text : String) :
    (∀ m, decode text = .ok m ↔ AllSound (places text) ∧ m = ofSorted (segmentsOf text)) ∧
      (∀ e, decode text = .error e ↔ ∃ before place after,
        places text = before ++ place :: after ∧ AllSound before ∧
          (faultsAt before place).head? = some e) ∧
      ∀ before place after, places text = before ++ place :: after → AllSound before →
        ∀ field, (Int64.ofInt (total field place.line (before ++ [place]))).toInt =
          total field place.line (before ++ [place]) := by
  refine ⟨fun m ↦ ?_, fun e ↦ ?_, fun before place after hsplit hsound ↦ ?_⟩
  · rw [decode_eq_verdict, verdict_eq_ok_iff, allSound_iff]
  · rw [decode_eq_verdict, verdict_eq_error_iff, head?_along_eq_some_iff]
    simp only [allSound_iff, List.nil_append]
  · have hordered := pairwise_line_placesFrom 0 (linesOf text)
    rw [show placesFrom 0 (linesOf text) = _ from hsplit, List.pairwise_append] at hordered
    obtain ⟨hbefore, -, hlines⟩ := hordered
    exact Passed.toInt_ofInt_total ⟨hbefore, hsound⟩
      fun earlier hearlier ↦ hlines earlier hearlier place List.mem_cons_self

/-- A name is looked at before the rest of the origin that it belongs to. -/
example : decode "A;ADDDD" = .error (.outOfRange .nameIndex (-1) 2) := by
  decide

end SourceChain.Mappings
