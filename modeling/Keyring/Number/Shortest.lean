import Keyring.Number.Binary64

namespace Keyring.Number

structure Decimal where
  digits : Nat
  exponent : Int
  deriving DecidableEq, Repr

namespace Decimal

def scaleByTen (num den : Nat) (k : Int) : Nat × Nat :=
  (num * Nat.pow 10 (-k).toNat, den * Nat.pow 10 k.toNat)

def magnitude (num den : Nat) : Int :=
  let least := ((num.log2 : Int) - den.log2 - 1) * 1233 / 4096 - 1
  let below (k : Int) : Bool := let (n, d) := scaleByTen num den k; n < d
  (([0, 1, 2, 3, 4].map (least + ·)).find? below).getD (least + 5)

def stripZeros : Nat → Decimal → Decimal
  | 0, x => x
  | fuel + 1, x =>
      if x.digits ≠ 0 ∧ x.digits % 10 = 0 then stripZeros fuel ⟨x.digits / 10, x.exponent + 1⟩
      else x

end Decimal

namespace Binary64

/-- The reals that round to a double, as numerators over a common denominator: both ends, the
double itself, and whether the ends belong to them. -/
structure Interval where
  low : Nat
  middle : Nat
  high : Nat
  den : Nat
  closed : Bool

def interval (x : Binary64) : Interval :=
  let (n, d) := scaleByTwo 1 4 (-x.exponent)
  let below := if x.significand = Nat.pow 2 52 ∧ -1074 < x.exponent then 1 else 2
  ⟨(4 * x.significand - below) * n, 4 * x.significand * n, (4 * x.significand + 2) * n, d,
    x.significand % 2 = 0⟩

def Interval.holds (i : Interval) (num den : Nat) : Bool :=
  let low := i.low * den
  let high := i.high * den
  let value := num * i.den
  if i.closed then low ≤ value && value ≤ high else low < value && value < high

/-- Of the two neighbours on the grid of `10 ^ k` that round back, the nearer one, a tie to the even
digit. -/
def neighbour? (i : Interval) (k : Int) : Option Nat :=
  let (n, d) := Decimal.scaleByTen i.middle i.den k
  let below := n / d
  let holds (f : Nat) : Bool := i.holds (f * Nat.pow 10 k.toNat) (Nat.pow 10 (-k).toNat)
  match holds below, holds (below + 1) with
  | true, true => some (divNearest n d)
  | true, false => some below
  | false, true => some (below + 1)
  | false, false => none

/-- The fewest decimal digits that read back as the double, and of those the nearest. -/
def shortest (x : Binary64) : Decimal :=
  if x.significand = 0 then ⟨0, 0⟩
  else
    let i := x.interval
    let before := Decimal.magnitude i.middle i.den
    let found := (List.range 17).findSome? fun n =>
      let k := before - (n + 1 : Nat)
      (neighbour? i k).map fun digits => (⟨digits, k⟩ : Decimal)
    Decimal.stripZeros 20 (found.getD ⟨0, 0⟩)

end Binary64

/-- Where a decimal is written by places: its point stands behind the first digit by at most `right`
places, or in front of it by less than `left`. All others have an exponent. -/
structure Layout where
  left : Int
  right : Int

def plain : Layout := ⟨5, 16⟩

def exponentText (e : Int) : String := if e < 0 then "e" ++ toString e else "e+" ++ toString e

def Layout.write (l : Layout) (negative : Bool) (x : Decimal) : String :=
  let digits := toString x.digits
  let length : Int := digits.length
  let point := length + x.exponent
  let zeros (n : Int) : String := String.ofList (List.replicate n.toNat '0')
  let sign := if negative then "-" else ""
  let first (n : Int) : String := String.ofList (digits.toList.take n.toNat)
  let rest (n : Int) : String := String.ofList (digits.toList.drop n.toNat)
  sign ++
    if x.digits = 0 then "0.0"
    else if 0 ≤ x.exponent ∧ point ≤ l.right then digits ++ zeros x.exponent ++ ".0"
    else if 0 < point ∧ point ≤ l.right then first point ++ "." ++ rest point
    else if -l.left < point ∧ point ≤ 0 then "0." ++ zeros (-point) ++ digits
    else if length = 1 then digits ++ exponentText (point - 1)
    else first 1 ++ "." ++ rest 1 ++ exponentText (point - 1)

def Binary64.toText (x : Binary64) : String := plain.write x.negative x.shortest

end Keyring.Number
