import Keyring.Bytes

namespace Keyring.Json

inductive Fault
  | endOfText
  | malformed
  deriving DecidableEq, Repr

abbrev quoteMark : UInt8 := 0x22
abbrev backslash : UInt8 := 0x5C
abbrev comma : UInt8 := 0x2C
abbrev colon : UInt8 := 0x3A
abbrev openList : UInt8 := 0x5B
abbrev closeList : UInt8 := 0x5D
abbrev openObject : UInt8 := 0x7B
abbrev closeObject : UInt8 := 0x7D
abbrev minusSign : UInt8 := 0x2D

def isSpace (b : UInt8) : Bool := b == 0x20 || b == 0x09 || b == 0x0A || b == 0x0D

def skipSpace (text : Bytes) : Bytes := text.dropWhile isSpace

theorem length_skipSpace_le (text : Bytes) : (skipSpace text).length ≤ text.length := by
  induction text with
  | nil => simp [skipSpace]
  | cons b rest ih =>
      simp only [skipSpace, List.dropWhile_cons, List.length_cons]
      split
      · exact Nat.le_succ_of_le ih
      · simp

theorem length_lt_of_skipSpace {text rest : Bytes} {b : UInt8} (h : skipSpace text = b :: rest) :
    rest.length < text.length := by
  have := length_skipSpace_le text
  rw [h, List.length_cons] at this
  omega

def isDigit (b : UInt8) : Bool := 0x30 ≤ b && b ≤ 0x39

def skipDigits (text : Bytes) : Bytes := text.dropWhile isDigit

theorem length_skipDigits_le (text : Bytes) : (skipDigits text).length ≤ text.length := by
  induction text with
  | nil => simp [skipDigits]
  | cons b rest ih =>
      simp only [skipDigits, List.dropWhile_cons, List.length_cons]
      split
      · exact Nat.le_succ_of_le ih
      · simp

def expectWord : Bytes → Bytes → Except Fault Bytes
  | [], text => .ok text
  | _ :: _, [] => .error .endOfText
  | w :: word, b :: rest => if w = b then expectWord word rest else .error .malformed

theorem length_expectWord_le {word text rest : Bytes} (h : expectWord word text = .ok rest) :
    rest.length ≤ text.length := by
  induction word generalizing text with
  | nil => simp_all [expectWord]
  | cons w word ih =>
      cases text with
      | nil => simp [expectWord] at h
      | cons b text =>
          simp only [expectWord] at h
          split at h
          · exact Nat.le_succ_of_le (ih h)
          · simp at h

def expectColon (text : Bytes) : Except Fault Bytes :=
  match skipSpace text with
  | [] => .error .endOfText
  | b :: rest => if b = colon then .ok rest else .error .malformed

theorem length_of_expectColon {text rest : Bytes} (h : expectColon text = .ok rest) :
    rest.length < text.length := by
  simp only [expectColon] at h
  split at h
  · simp at h
  · rename_i hspace
    split at h
    · simp only [Except.ok.injEq] at h
      exact h ▸ length_lt_of_skipSpace hspace
    · simp at h

def hexValue? (b : UInt8) : Option Nat :=
  if isDigit b then some (b.toNat - 0x30)
  else if 0x41 ≤ b ∧ b ≤ 0x46 then some (b.toNat - 0x37)
  else if 0x61 ≤ b ∧ b ≤ 0x66 then some (b.toNat - 0x57)
  else none

/-- The number of four hexadecimal digits. Fewer than four octets are an early end, whatever they
are. -/
def hexQuad : Bytes → Except Fault (Nat × Bytes)
  | a :: b :: c :: d :: rest =>
      match hexValue? a, hexValue? b, hexValue? c, hexValue? d with
      | some w, some x, some y, some z => .ok (((w * 16 + x) * 16 + y) * 16 + z, rest)
      | _, _, _, _ => .error .malformed
  | _ => .error .endOfText

theorem length_of_hexQuad {text rest : Bytes} {n : Nat} (h : hexQuad text = .ok (n, rest)) :
    rest.length < text.length := by
  match text, h with
  | a :: b :: c :: d :: tail, h =>
      simp only [hexQuad] at h
      split at h
      · simp only [Except.ok.injEq, Prod.mk.injEq] at h
        rw [← h.2]
        simp only [List.length_cons]
        omega
      · simp at h
  | [], h | [_], h | [_, _], h | [_, _, _], h => simp [hexQuad] at h

end Keyring.Json
