import Keyring.Json.Scan
import Keyring.Number.Shortest

namespace Keyring.Json

open Keyring.Number

/-- A number as read: whole numbers of 64 bits stay whole, all others are doubles. -/
inductive Number
  | whole (value : Int)
  | double (value : Binary64)
  deriving DecidableEq, Repr

def powerOfTen (e : Nat) : Binary64 :=
  (Binary64.ofRatio? false (Nat.pow 10 e) 1).getD (Binary64.zero false)

def scaled? : Nat → Binary64 → Int → Option Binary64
  | 0, _, _ => none
  | fuel + 1, x, e =>
      if e.natAbs ≤ 308 then
        if 0 ≤ e then x.mul? (powerOfTen e.natAbs) else x.div? (powerOfTen e.natAbs)
      else if x.significand = 0 then some x
      else if 0 ≤ e then none
      else (x.div? (powerOfTen 308)).bind fun x => scaled? fuel x (e + 308)

/-- The number with these leading digits and this exponent; one that no double holds is refused. -/
def Number.ofParts (negative : Bool) (significand : Nat) (e : Int) : Except Fault Number :=
  match scaled? 8 (Binary64.ofInt significand) e with
  | some x => .ok (.double (if negative then x.neg else x))
  | none => .error .malformed

def largestSignificand : Nat := Nat.pow 2 64 - 1

/-- The digits of an exponent, after the first one. An exponent beyond 31 bits makes the number
zero, or too large. -/
def readExponentDigits (negative : Bool) (significand : Nat) (start : Int) (down : Bool) :
    Nat → Bytes → Except Fault (Number × Bytes)
  | e, b :: rest =>
      if isDigit b then
        if e * 10 + (b.toNat - 0x30) < Nat.pow 2 31 then
          readExponentDigits negative significand start down (e * 10 + (b.toNat - 0x30)) rest
        else if significand ≠ 0 ∧ !down then .error .malformed
        else .ok (.double (Binary64.zero negative), skipDigits rest)
      else (Number.ofParts negative significand (if down then start - e else start + e)).map
        (·, b :: rest)
  | e, [] =>
      (Number.ofParts negative significand (if down then start - e else start + e)).map (·, [])

def readExponent (negative : Bool) (significand : Nat) (start : Int) (text : Bytes) :
    Except Fault (Number × Bytes) :=
  let (down, text) :=
    match text with
    | 0x2B :: rest => (false, rest)
    | 0x2D :: rest => (true, rest)
    | text => (false, text)
  match text with
  | [] => .error .endOfText
  | b :: rest =>
      if isDigit b then readExponentDigits negative significand start down (b.toNat - 0x30) rest
      else .error .malformed

def afterFraction (negative : Bool) (significand : Nat) (e : Int) (text : Bytes) :
    Except Fault (Number × Bytes) :=
  match text with
  | 0x65 :: rest => readExponent negative significand e rest
  | 0x45 :: rest => readExponent negative significand e rest
  | text => (Number.ofParts negative significand e).map (·, text)

/-- The digits of a fraction, of which `read` are read; those beyond 64 bits are dropped. -/
def readFraction (negative : Bool) (whole : Int) :
    (read significand : Nat) → Bytes → Except Fault (Number × Bytes)
  | read, significand, b :: rest =>
      if isDigit b then
        if significand * 10 + (b.toNat - 0x30) ≤ largestSignificand then
          readFraction negative whole (read + 1) (significand * 10 + (b.toNat - 0x30)) rest
        else afterFraction negative significand (whole - read) (skipDigits rest)
      else if read = 0 then .error .malformed
      else afterFraction negative significand (whole - read) (b :: rest)
  | read, significand, [] =>
      if read = 0 then .error .endOfText
      else afterFraction negative significand (whole - read) []

def readLong (negative : Bool) (significand : Nat) : Nat → Bytes → Except Fault (Number × Bytes)
  | dropped, b :: rest =>
      if isDigit b then readLong negative significand (dropped + 1) rest
      else if b = 0x2E then readFraction negative dropped 0 significand rest
      else afterFraction negative significand dropped (b :: rest)
  | dropped, [] => afterFraction negative significand dropped []

/-- A whole number of 64 bits; minus zero and what lies below are doubles. -/
def Number.ofWhole (negative : Bool) (n : Nat) : Number :=
  if negative then
    if n = 0 ∨ Nat.pow 2 63 < n then .double (Binary64.ofInt n).neg else .whole (-(n : Int))
  else .whole n

def afterWhole (negative : Bool) (n : Nat) (text : Bytes) : Except Fault (Number × Bytes) :=
  match text with
  | 0x2E :: rest => readFraction negative 0 0 n rest
  | 0x65 :: rest => readExponent negative n 0 rest
  | 0x45 :: rest => readExponent negative n 0 rest
  | text => .ok (.ofWhole negative n, text)

def readWhole (negative : Bool) : Nat → Bytes → Except Fault (Number × Bytes)
  | n, b :: rest =>
      if isDigit b then
        if n * 10 + (b.toNat - 0x30) ≤ largestSignificand then
          readWhole negative (n * 10 + (b.toNat - 0x30)) rest
        else readLong negative n 1 rest
      else afterWhole negative n (b :: rest)
  | n, [] => afterWhole negative n []

def readNumber (negative : Bool) : Bytes → Except Fault (Number × Bytes)
  | [] => .error .endOfText
  | b :: rest =>
      if b = 0x30 then
        match rest with
        | c :: _ => if isDigit c then .error .malformed else afterWhole negative 0 rest
        | [] => afterWhole negative 0 rest
      else if isDigit b then readWhole negative (b.toNat - 0x30) rest
      else .error .malformed

def skipExponent (text : Bytes) : Except Fault Bytes :=
  let text :=
    match text with
    | 0x2B :: rest => rest
    | 0x2D :: rest => rest
    | text => text
  match text with
  | b :: rest => if isDigit b then .ok (skipDigits rest) else .error .malformed
  | [] => .error .malformed

def skipAfterWhole (text : Bytes) : Except Fault Bytes :=
  match text with
  | 0x2E :: b :: rest =>
      if isDigit b then
        match skipDigits rest with
        | 0x65 :: rest => skipExponent rest
        | 0x45 :: rest => skipExponent rest
        | rest => .ok rest
      else .error .malformed
  | [0x2E] => .error .malformed
  | 0x65 :: rest => skipExponent rest
  | 0x45 :: rest => skipExponent rest
  | text => .ok text

def skipNumber : Bytes → Except Fault Bytes
  | [] => .error .malformed
  | b :: rest =>
      if b = 0x30 then
        match rest with
        | c :: _ => if isDigit c then .error .malformed else skipAfterWhole rest
        | [] => .ok []
      else if isDigit b then skipAfterWhole (skipDigits rest)
      else .error .malformed

theorem length_skipExponent_le {text rest : Bytes} (h : skipExponent text = .ok rest) :
    rest.length ≤ text.length := by
  simp only [skipExponent] at h
  split at h
  · rename_i b tail hsign
    have hle : (b :: tail).length ≤ text.length := by
      rw [← hsign]
      split <;> simp
    split at h
    · simp only [Except.ok.injEq] at h
      have := length_skipDigits_le tail
      rw [← h]
      simp only [List.length_cons] at hle
      omega
    · simp at h
  · simp at h

theorem length_skipAfterWhole_le {text rest : Bytes} (h : skipAfterWhole text = .ok rest) :
    rest.length ≤ text.length := by
  simp only [skipAfterWhole] at h
  split at h
  · rename_i b tail
    have hdigits := length_skipDigits_le tail
    split at h
    · split at h
      · rename_i hd
        rw [hd, List.length_cons] at hdigits
        have := length_skipExponent_le h
        simp only [List.length_cons]
        omega
      · rename_i hd
        rw [hd, List.length_cons] at hdigits
        have := length_skipExponent_le h
        simp only [List.length_cons]
        omega
      · simp only [Except.ok.injEq] at h
        rw [← h]
        simp only [List.length_cons]
        omega
    · simp at h
  · simp at h
  · have := length_skipExponent_le h
    simp only [List.length_cons]
    omega
  · have := length_skipExponent_le h
    simp only [List.length_cons]
    omega
  · simp only [Except.ok.injEq] at h
    exact Nat.le_of_eq (congrArg List.length h.symm)

theorem length_of_skipNumber {text rest : Bytes} (h : skipNumber text = .ok rest) :
    rest.length < text.length := by
  cases text with
  | nil => simp [skipNumber] at h
  | cons b tail =>
      simp only [skipNumber] at h
      split at h
      · cases tail with
        | nil => simp_all
        | cons c tail =>
            simp only at h
            split at h
            · simp at h
            · exact Nat.lt_succ_of_le (length_skipAfterWhole_le h)
      · split at h
        · have := length_skipAfterWhole_le h
          have := length_skipDigits_le tail
          simp only [List.length_cons]
          omega
        · simp at h

end Keyring.Json
