namespace Keyring.Text.Decimal

inductive Fault
  | empty
  | invalidDigit
  | tooLarge
  | tooSmall
  deriving DecidableEq, Repr

def Fault.message : Fault → String
  | .empty => "cannot parse integer from empty string"
  | .invalidDigit => "invalid digit found in string"
  | .tooLarge => "number too large to fit in target type"
  | .tooSmall => "number too small to fit in target type"

def digit? (c : Char) : Option Nat :=
  if '0' ≤ c ∧ c ≤ '9' then some (c.toNat - '0'.toNat) else none

/-- Reads digits after a value already read. The value may never pass `bound`; at one character a
wrong digit is found before the bound is passed. -/
def magnitude (bound : Nat) (beyond : Fault) : Nat → List Char → Except Fault Nat
  | value, [] => .ok value
  | value, c :: rest =>
      match digit? c with
      | none => .error .invalidDigit
      | some d =>
          if value * 10 + d ≤ bound then magnitude bound beyond (value * 10 + d) rest
          else .error beyond

def readNat (bound : Nat) : List Char → Except Fault Nat
  | [] => .error .empty
  | ['+'] => .error .invalidDigit
  | '+' :: digits => magnitude bound .tooLarge 0 digits
  | digits => magnitude bound .tooLarge 0 digits

def readInt (bound : Nat) : List Char → Except Fault Int
  | [] => .error .empty
  | ['+'] => .error .invalidDigit
  | ['-'] => .error .invalidDigit
  | '+' :: digits => (magnitude bound .tooLarge 0 digits).map Int.ofNat
  | '-' :: digits => (magnitude (bound + 1) .tooSmall 0 digits).map fun n : Nat => -(n : Int)
  | digits => (magnitude bound .tooLarge 0 digits).map Int.ofNat

end Keyring.Text.Decimal
