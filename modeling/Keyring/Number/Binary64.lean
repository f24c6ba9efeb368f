namespace Keyring.Number

/-- A finite double, `significand · 2 ^ exponent` with a sign. -/
structure Binary64 where
  negative : Bool
  significand : Nat
  exponent : Int
  deriving DecidableEq, Repr

def divNearest (num den : Nat) : Nat :=
  let quotient := num / den
  let twice := 2 * (num % den)
  if den < twice ∨ (twice = den ∧ quotient % 2 = 1) then quotient + 1 else quotient

def scaleByTwo (num den : Nat) (e : Int) : Nat × Nat :=
  (num * Nat.pow 2 (-e).toNat, den * Nat.pow 2 e.toNat)

namespace Binary64

def zero (negative : Bool) : Binary64 := ⟨negative, 0, -1074⟩

/-- The exponent of the last binary place kept of `num / den`: 53 places, none below `2 ^ -1074`. -/
def lastPlace (num den : Nat) : Int :=
  let e := max (-1074) ((num.log2 : Int) - den.log2 - 53)
  let (n, d) := scaleByTwo num den e
  if d * Nat.pow 2 53 ≤ n then e + 1 else e

/-- The double nearest to `num / den`, a tie to the even significand; none beyond the largest. -/
def ofRatio? (negative : Bool) (num den : Nat) : Option Binary64 :=
  if num = 0 then some (zero negative)
  else
    let e := lastPlace num den
    let (n, d) := scaleByTwo num den e
    let m := divNearest n d
    let x : Binary64 :=
      if m = Nat.pow 2 53 then ⟨negative, Nat.pow 2 52, e + 1⟩ else ⟨negative, m, e⟩
    if x.exponent ≤ 971 then some x else none

def ratio (x : Binary64) : Nat × Nat := scaleByTwo x.significand 1 (-x.exponent)

def ofInt (i : Int) : Binary64 := (ofRatio? (i < 0) i.natAbs 1).getD (zero false)

def toInt (x : Binary64) : Int :=
  let (n, d) := x.ratio
  if x.negative then -((n / d : Nat) : Int) else ((n / d : Nat) : Int)

def mul? (x y : Binary64) : Option Binary64 :=
  let (n, d) := x.ratio
  let (n', d') := y.ratio
  ofRatio? (x.negative != y.negative) (n * n') (d * d')

def div? (x y : Binary64) : Option Binary64 :=
  let (n, d) := x.ratio
  let (n', d') := y.ratio
  if n' = 0 then none else ofRatio? (x.negative != y.negative) (n * d') (d * n')

def neg (x : Binary64) : Binary64 := { x with negative := !x.negative }

end Binary64

end Keyring.Number
