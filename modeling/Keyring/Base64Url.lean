import Keyring.Bytes

namespace Keyring.Base64Url

inductive Fault
  | symbol (byte : UInt8) (offset : Nat)
  | length (symbols : Nat)
  | padding
  | lastSymbol (byte : UInt8) (offset : Nat)
  deriving DecidableEq, Repr

def Fault.message : Fault → String
  | .symbol byte offset => s!"Invalid symbol {byte.toNat}, offset {offset}."
  | .length symbols => s!"Invalid input length: {symbols}"
  | .padding => "Invalid padding"
  | .lastSymbol byte offset => s!"Invalid last symbol {byte.toNat}, offset {offset}."

def symbol (n : Nat) : UInt8 :=
  UInt8.ofNat <|
    if n < 26 then n + 65
    else if n < 52 then n + 71
    else if n < 62 then n - 4
    else if n = 62 then 45
    else 95

def value? (byte : UInt8) : Option Nat :=
  let n := byte.toNat
  if 65 ≤ n ∧ n ≤ 90 then some (n - 65)
  else if 97 ≤ n ∧ n ≤ 122 then some (n - 71)
  else if 48 ≤ n ∧ n ≤ 57 then some (n + 4)
  else if n = 45 then some 62
  else if n = 95 then some 63
  else none

theorem value?_symbol {n : Nat} (h : n < 64) : value? (symbol n) = some n := by
  have : ∀ i : Fin 64, value? (symbol i) = some i.val := by decide
  exact this ⟨n, h⟩

theorem value?_lt {byte : UInt8} {n : Nat} (h : value? byte = some n) : n < 64 := by
  simp only [value?] at h
  repeat' split at h
  all_goals simp only [Option.some.injEq, reduceCtorEq] at h
  all_goals omega

theorem symbol_of_value? {byte : UInt8} {n : Nat} (h : value? byte = some n) :
    symbol n = byte := by
  apply UInt8.toNat_inj.mp
  simp only [value?] at h
  simp only [symbol, UInt8.toNat_ofNat']
  repeat' split at h
  all_goals simp only [Option.some.injEq, reduceCtorEq] at h
  all_goals subst h
  all_goals grind

def encode : Bytes → Bytes
  | a :: b :: c :: rest =>
      symbol (a.toNat / 4) :: symbol (a.toNat % 4 * 16 + b.toNat / 16) ::
        symbol (b.toNat % 16 * 4 + c.toNat / 64) :: symbol (c.toNat % 64) :: encode rest
  | [a, b] =>
      [symbol (a.toNat / 4), symbol (a.toNat % 4 * 16 + b.toNat / 16), symbol (b.toNat % 16 * 4)]
  | [a] => [symbol (a.toNat / 4), symbol (a.toNat % 4 * 16)]
  | [] => []

def encodeText (b : Bytes) : String := Bytes.toLatin (encode b)

def pad : UInt8 := 61

def symbolAt (offset : Nat) (byte : UInt8) : Except Fault Nat :=
  match value? byte with
  | some n => .ok n
  | none => .error (.symbol byte offset)

def quad (offset : Nat) (a b c d : UInt8) : Except Fault Bytes := do
  let w ← symbolAt offset a
  let x ← symbolAt (offset + 1) b
  let y ← symbolAt (offset + 2) c
  let z ← symbolAt (offset + 3) d
  return [UInt8.ofNat (w * 4 + x / 16), UInt8.ofNat (x % 16 * 16 + y / 4),
    UInt8.ofNat (y % 4 * 64 + z)]

/-- Reads the last group from `place` on: the numbers of its symbols, and where its padding
begins. Padding may begin at the third place and nothing else may follow it. -/
def lastSymbols (offset : Nat) : Nat → Option Nat → Bytes → Except Fault (List Nat × Option Nat)
  | _, padding, [] => .ok ([], padding)
  | place, padding, byte :: rest =>
      if byte = pad then
        if place < 2 then .error (.symbol pad (offset + place))
        else lastSymbols offset (place + 1) (padding <|> some place) rest
      else
        match padding with
        | some first => .error (.symbol pad (offset + first))
        | none => do
            let n ← symbolAt (offset + place) byte
            let (values, padding) ← lastSymbols offset (place + 1) none rest
            return (n :: values, padding)

def lastGroup (offset : Nat) (group : Bytes) : Except Fault Bytes := do
  let (values, padding) ← lastSymbols offset 0 none group
  match values with
  | [] => if group.isEmpty then return [] else .error (.length offset)
  | [_] => .error (.length (offset + 1))
  | w :: x :: more =>
      if padding.isSome then .error .padding
      else
        match more with
        | [] =>
            if x % 16 = 0 then return [UInt8.ofNat (w * 4 + x / 16)]
            else .error (.lastSymbol (symbol x) (offset + 1))
        | [y] =>
            if y % 4 = 0 then
              return [UInt8.ofNat (w * 4 + x / 16), UInt8.ofNat (x % 16 * 16 + y / 4)]
            else .error (.lastSymbol (symbol y) (offset + 2))
        | y :: z :: _ =>
            return [UInt8.ofNat (w * 4 + x / 16), UInt8.ofNat (x % 16 * 16 + y / 4),
              UInt8.ofNat (y % 4 * 64 + z)]

def groups (offset : Nat) : Bytes → Except Fault Bytes
  | a :: b :: c :: d :: e :: rest => do
      let head ← quad offset a b c d
      let tail ← groups (offset + 4) (e :: rest)
      return head ++ tail
  | group => lastGroup offset group

/-- A last byte alone in its group that is neither a symbol nor padding is reported before all
else. -/
def strayEnd? (text : Bytes) : Option Fault :=
  if text.length % 4 = 1 then
    match text.getLast? with
    | some byte =>
        if byte ≠ pad ∧ value? byte = none then some (.symbol byte (text.length - 1)) else none
    | none => none
  else none

/-- The octets of a base64url text without padding and without loose bits at its end. -/
def decode (text : Bytes) : Except Fault Bytes :=
  match strayEnd? text with
  | some fault => .error fault
  | none => groups 0 text

end Keyring.Base64Url
