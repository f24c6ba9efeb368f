import Keyring.Json.Scan

namespace Keyring.Json

def shortEscape? (b : UInt8) : Option UInt8 :=
  match b with
  | 0x22 => some 0x22
  | 0x5C => some 0x5C
  | 0x2F => some 0x2F
  | 0x62 => some 0x08
  | 0x66 => some 0x0C
  | 0x6E => some 0x0A
  | 0x72 => some 0x0D
  | 0x74 => some 0x09
  | _ => none

def charBytes (n : Nat) : Bytes := String.utf8EncodeChar (Char.ofNat n)

def lowSurrogate (high : Nat) : Bytes → Except Fault (Bytes × Bytes)
  | [] => .error .endOfText
  | [b] => if b = backslash then .error .endOfText else .error .malformed
  | b :: u :: rest =>
      if b = backslash ∧ u = 0x75 then
        match hexQuad rest with
        | .error fault => .error fault
        | .ok (low, rest) =>
            if 0xDC00 ≤ low ∧ low ≤ 0xDFFF then
              .ok (charBytes (0x10000 + (high - 0xD800) * 0x400 + (low - 0xDC00)), rest)
            else .error .malformed
      else .error .malformed

/-- The octets that an escape stands for, read after its backslash. Surrogates stand in pairs. -/
def unescape : Bytes → Except Fault (Bytes × Bytes)
  | [] => .error .endOfText
  | b :: rest =>
      if b = 0x75 then
        match hexQuad rest with
        | .error fault => .error fault
        | .ok (n, rest) =>
            if 0xDC00 ≤ n ∧ n ≤ 0xDFFF then .error .malformed
            else if 0xD800 ≤ n ∧ n ≤ 0xDBFF then lowSurrogate n rest
            else .ok (charBytes n, rest)
      else
        match shortEscape? b with
        | some octet => .ok ([octet], rest)
        | none => .error .malformed

theorem length_of_lowSurrogate {high : Nat} {text out rest : Bytes}
    (h : lowSurrogate high text = .ok (out, rest)) : rest.length < text.length := by
  match text, h with
  | [], h => simp [lowSurrogate] at h
  | [b], h =>
      simp only [lowSurrogate] at h
      split at h <;> simp at h
  | b :: u :: tail, h =>
      simp only [lowSurrogate] at h
      split at h
      · split at h
        · simp at h
        · rename_i hquad
          split at h
          · simp only [Except.ok.injEq, Prod.mk.injEq] at h
            have := length_of_hexQuad hquad
            rw [← h.2]
            simp only [List.length_cons]
            omega
          · simp at h
      · simp at h

theorem length_of_unescape {text out rest : Bytes} (h : unescape text = .ok (out, rest)) :
    rest.length < text.length := by
  cases text with
  | nil => simp [unescape] at h
  | cons b tail =>
      simp only [unescape] at h
      split at h
      · split at h
        · simp at h
        · rename_i hquad
          have := length_of_hexQuad hquad
          split at h
          · simp at h
          split at h
          · have := length_of_lowSurrogate h
            simp only [List.length_cons]
            omega
          · simp only [Except.ok.injEq, Prod.mk.injEq] at h
            rw [← h.2]
            simp only [List.length_cons]
            omega
      · split at h
        · simp only [Except.ok.injEq, Prod.mk.injEq] at h
          rw [← h.2]
          simp
        · simp at h

def unquote : Bytes → Except Fault (Bytes × Bytes)
  | [] => .error .endOfText
  | b :: rest =>
      if b = quoteMark then .ok ([], rest)
      else if b = backslash then
        match _h : unescape rest with
        | .error fault => .error fault
        | .ok (octets, rest) =>
            match unquote rest with
            | .error fault => .error fault
            | .ok (more, rest) => .ok (octets ++ more, rest)
      else if b < 0x20 then .error .malformed
      else
        match unquote rest with
        | .error fault => .error fault
        | .ok (more, rest) => .ok (b :: more, rest)
termination_by text => text.length
decreasing_by
  · exact Nat.lt_succ_of_lt (length_of_unescape _h)
  · exact Nat.lt_succ_self _

def readText (text : Bytes) : Except Fault (String × Bytes) :=
  match unquote text with
  | .error fault => .error fault
  | .ok (octets, rest) =>
      match Bytes.toText? octets with
      | some s => .ok (s, rest)
      | none => .error .malformed

def skipEscape : Bytes → Except Fault Bytes
  | [] => .error .endOfText
  | b :: rest =>
      if b = 0x75 then (hexQuad rest).map (·.2)
      else if (shortEscape? b).isSome then .ok rest
      else .error .malformed

theorem length_of_skipEscape {text rest : Bytes} (h : skipEscape text = .ok rest) :
    rest.length < text.length := by
  cases text with
  | nil => simp [skipEscape] at h
  | cons b tail =>
      simp only [skipEscape] at h
      split at h
      · cases hquad : hexQuad tail with
        | error fault => simp [hquad, Except.map] at h
        | ok found =>
            simp only [hquad, Except.map, Except.ok.injEq] at h
            have := length_of_hexQuad hquad
            rw [← h]
            simp only [List.length_cons]
            omega
      · split at h
        · simp_all
        · simp at h

def skipText : Bytes → Except Fault Bytes
  | [] => .error .endOfText
  | b :: rest =>
      if b = quoteMark then .ok rest
      else if b = backslash then
        match _h : skipEscape rest with
        | .error fault => .error fault
        | .ok rest => skipText rest
      else if b < 0x20 then .error .malformed
      else skipText rest
termination_by text => text.length
decreasing_by
  · exact Nat.lt_succ_of_lt (length_of_skipEscape _h)
  · exact Nat.lt_succ_self _

theorem length_of_skipText {text rest : Bytes} (h : skipText text = .ok rest) :
    rest.length < text.length := by
  fun_induction skipText text with
  | case1 | case3 | case5 => simp at h
  | case2 => simp_all
  | case4 tail rest' hesc _ ih =>
      have := length_of_skipEscape hesc
      have := ih h
      simp only [List.length_cons]
      omega
  | case6 b tail _ _ _ ih =>
      have := ih h
      simp only [List.length_cons]
      omega

def escapeByte (b : UInt8) : Bytes :=
  match b with
  | 0x22 => [backslash, quoteMark]
  | 0x5C => [backslash, backslash]
  | 0x08 => [backslash, 0x62]
  | 0x0C => [backslash, 0x66]
  | 0x0A => [backslash, 0x6E]
  | 0x0D => [backslash, 0x72]
  | 0x09 => [backslash, 0x74]
  | b =>
      if b < 0x10 then [backslash, 0x75, 0x30, 0x30, 0x30, hexDigit (b % 0x10)]
      else if b < 0x20 then [backslash, 0x75, 0x30, 0x30, 0x31, hexDigit (b % 0x10)]
      else [b]
where
  hexDigit (n : UInt8) : UInt8 := if n < 10 then 0x30 + n else 0x57 + n

/-- A text in quotes: quotes, backslashes and controls escaped, all else as it is. -/
def quote (s : String) : Bytes :=
  quoteMark :: ((Bytes.ofText s).flatMap escapeByte ++ [quoteMark])

end Keyring.Json
