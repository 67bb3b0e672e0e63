import SourceChain.Json.Quoted
import SourceChain.Json.Numeral

/-!
# Values that are passed over

A value that nothing asks for is checked against the grammar and dropped. The lists and records
that are open are kept in a list of their own, so there is no limit on how deep they nest.
-/

namespace SourceChain.Json

/-- What a value that is being passed over stands in. -/
inductive Frame where
  | list
  | record
deriving DecidableEq, Repr

/-- What is left after a key and its colon; `s` starts at the opening quote, blanks aside. -/
def skipKey (s : List UInt8) : Except Fault (Shorter s.length) :=
  match skipBlanks s with
  | ⟨[], _⟩ => .error .truncated
  | ⟨b :: r, h⟩ =>
    if b = quote then
      match skipQuoted r with
      | .error e => .error e
      | .ok ⟨rest, hr⟩ =>
        match skipColon rest with
        | .error e => .error e
        | .ok ⟨rest', hr'⟩ => .ok ⟨rest', length_lt_of_cons (Nat.lt_trans hr' hr) h⟩
    else .error .malformed

mutual

/-- What is left after a value and everything that is open around it, in a loop whose text started
with `n` octets. -/
def skipValue (n : Nat) (around : List Frame) (s : List UInt8) (hs : s.length ≤ n) :
    Except Fault (Shorter n) :=
  match skipBlanks s with
  | ⟨[], _⟩ => .error .truncated
  | ⟨b :: r, h⟩ =>
    have hr : r.length < s.length := h
    if b = openList then
      match skipBlanks r with
      | ⟨[], _⟩ => .error .truncated
      | ⟨c :: r', h'⟩ =>
        have hc : (c :: r').length < s.length := Nat.lt_of_le_of_lt h' hr
        have hr' : r'.length < s.length := Nat.lt_of_succ_lt hc
        if c = closeList then skipAfter n around r' (Nat.lt_of_lt_of_le hr' hs)
        else skipValue n (.list :: around) (c :: r') (Nat.le_trans (Nat.le_of_lt hc) hs)
    else if b = openRecord then
      match skipBlanks r with
      | ⟨[], _⟩ => .error .truncated
      | ⟨c :: r', h'⟩ =>
        have hc : (c :: r').length < s.length := Nat.lt_of_le_of_lt h' hr
        have hr' : r'.length < s.length := Nat.lt_of_succ_lt hc
        if c = closeRecord then skipAfter n around r' (Nat.lt_of_lt_of_le hr' hs)
        else
          match skipKey (c :: r') with
          | .error e => .error e
          | .ok ⟨rest, hk⟩ =>
            have hrest : rest.length < s.length := Nat.lt_trans hk hc
            skipValue n (.record :: around) rest (Nat.le_trans (Nat.le_of_lt hrest) hs)
    else if b = quote then
      match skipQuoted r with
      | .error e => .error e
      | .ok ⟨rest, hq⟩ =>
        have hrest : rest.length < s.length := Nat.lt_trans hq hr
        skipAfter n around rest (Nat.lt_of_lt_of_le hrest hs)
    else if b = minus then
      match skipNumeral r with
      | .error e => .error e
      | .ok ⟨rest, hq⟩ =>
        have hrest : rest.length < s.length := Nat.lt_trans hq hr
        skipAfter n around rest (Nat.lt_of_lt_of_le hrest hs)
    else if isDigit b then
      match skipNumeral (b :: r) with
      | .error e => .error e
      | .ok ⟨rest, hq⟩ =>
        have hrest : rest.length < s.length := length_lt_of_lt_cons hq h
        skipAfter n around rest (Nat.lt_of_lt_of_le hrest hs)
    else
      let word :=
        if b = octet 'n' then some ['u', 'l', 'l']
        else if b = octet 't' then some ['r', 'u', 'e']
        else if b = octet 'f' then some ['a', 'l', 's', 'e']
        else none
      match word with
      | none => .error .malformed
      | some cs =>
        match keyword cs r with
        | .error e => .error e
        | .ok ⟨rest, hq⟩ =>
          have hrest : rest.length < s.length := Nat.lt_of_le_of_lt hq hr
          skipAfter n around rest (Nat.lt_of_lt_of_le hrest hs)
termination_by s.length
decreasing_by all_goals assumption

/-- What is left after everything that is open, where a value has just ended. -/
def skipAfter (n : Nat) (around : List Frame) (s : List UInt8) (hs : s.length < n) :
    Except Fault (Shorter n) :=
  match around with
  | [] => .ok ⟨s, hs⟩
  | frame :: outer =>
    match skipBlanks s with
    | ⟨[], _⟩ => .error .truncated
    | ⟨b :: r, h⟩ =>
      have hr : r.length < s.length := h
      if b = comma then
        match frame with
        | .list => skipValue n (frame :: outer) r (Nat.le_of_lt (Nat.lt_trans hr hs))
        | .record =>
          match skipKey r with
          | .error e => .error e
          | .ok ⟨rest, hk⟩ =>
            have hrest : rest.length < s.length := Nat.lt_trans hk hr
            skipValue n (frame :: outer) rest (Nat.le_of_lt (Nat.lt_trans hrest hs))
      else if b = closeList ∧ frame = .list ∨ b = closeRecord ∧ frame = .record then
        skipAfter n outer r (Nat.lt_trans hr hs)
      else .error .malformed
termination_by s.length
decreasing_by all_goals assumption

end

/-- What is left after a value that is passed over. -/
def skip (s : List UInt8) : Except Fault (Shorter s.length) :=
  skipValue s.length [] s (length_le_self s)

end SourceChain.Json
