import Keyring.Json.Number
import Keyring.Json.Text

namespace Keyring.Json

inductive Enclosing
  | list
  | object
  deriving DecidableEq, Repr

def skipScalar : Bytes → Except Fault Bytes
  | [] => .error .endOfText
  | b :: rest =>
      if b = quoteMark then skipText rest
      else if b = minusSign then skipNumber rest
      else if isDigit b then skipNumber (b :: rest)
      else if b = 0x6E then expectWord [0x75, 0x6C, 0x6C] rest
      else if b = 0x74 then expectWord [0x72, 0x75, 0x65] rest
      else if b = 0x66 then expectWord [0x61, 0x6C, 0x73, 0x65] rest
      else .error .malformed

theorem length_of_skipScalar {text rest : Bytes} (h : skipScalar text = .ok rest) :
    rest.length < text.length := by
  cases text with
  | nil => simp [skipScalar] at h
  | cons b tail =>
      simp only [skipScalar] at h
      rw [List.length_cons]
      repeat' split at h
      · exact Nat.lt_succ_of_lt (length_of_skipText h)
      · exact Nat.lt_succ_of_lt (length_of_skipNumber h)
      · exact length_of_skipNumber h
      · exact Nat.lt_succ_of_le (length_expectWord_le h)
      · exact Nat.lt_succ_of_le (length_expectWord_le h)
      · exact Nat.lt_succ_of_le (length_expectWord_le h)
      · simp at h

def skipName (text : Bytes) : Except Fault Bytes :=
  match skipSpace text with
  | [] => .error .endOfText
  | b :: rest =>
      if b = quoteMark then (skipText rest).bind expectColon else .error .malformed

theorem length_of_skipName {text rest : Bytes} (h : skipName text = .ok rest) :
    rest.length < text.length := by
  simp only [skipName] at h
  split at h
  · simp at h
  · rename_i hspace
    split at h
    · rename_i tail _
      cases htext : skipText tail with
      | error fault => simp [htext, Except.bind] at h
      | ok after =>
          simp only [htext, Except.bind] at h
          have := length_lt_of_skipSpace hspace
          have := length_of_skipText htext
          have := length_of_expectColon h
          omega
    · simp at h

mutual

/-- What follows the value at the start and the rest of all that encloses it, innermost first. -/
def skipValue (enclosing : List Enclosing) (text : Bytes) : Except Fault Bytes :=
  match _hs : skipSpace text with
  | [] => .error .endOfText
  | b :: rest =>
      if b = openList then
        match _hr : skipSpace rest with
        | [] => .error .endOfText
        | c :: after =>
            if c = closeList then skipRest enclosing after
            else skipValue (.list :: enclosing) rest
      else if b = openObject then
        match _hr : skipSpace rest with
        | [] => .error .endOfText
        | c :: after =>
            if c = closeObject then skipRest enclosing after
            else
              match _hn : skipName rest with
              | .error fault => .error fault
              | .ok rest => skipValue (.object :: enclosing) rest
      else
        match _hv : skipScalar (b :: rest) with
        | .error fault => .error fault
        | .ok rest => skipRest enclosing rest
termination_by (text.length, 1)
decreasing_by
  · left
    have := length_lt_of_skipSpace _hs
    have := length_lt_of_skipSpace _hr
    omega
  · left
    exact length_lt_of_skipSpace _hs
  · left
    have := length_lt_of_skipSpace _hs
    have := length_lt_of_skipSpace _hr
    omega
  · left
    have := length_lt_of_skipSpace _hs
    have := length_of_skipName _hn
    omega
  · left
    have := length_of_skipScalar _hv
    have := length_skipSpace_le text
    rw [_hs] at this
    omega

def skipRest (enclosing : List Enclosing) (text : Bytes) : Except Fault Bytes :=
  match enclosing with
  | [] => .ok text
  | .list :: outer =>
      match _hs : skipSpace text with
      | [] => .error .endOfText
      | b :: rest =>
          if b = comma then skipValue (.list :: outer) rest
          else if b = closeList then skipRest outer rest
          else .error .malformed
  | .object :: outer =>
      match _hs : skipSpace text with
      | [] => .error .endOfText
      | b :: rest =>
          if b = comma then
            match _hn : skipName rest with
            | .error fault => .error fault
            | .ok rest => skipValue (.object :: outer) rest
          else if b = closeObject then skipRest outer rest
          else .error .malformed
termination_by (text.length, 0)
decreasing_by
  all_goals have := length_lt_of_skipSpace _hs
  · omega
  · omega
  · have := length_of_skipName _hn
    omega
  · omega

end

end Keyring.Json
