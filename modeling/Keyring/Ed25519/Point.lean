import Keyring.Ed25519.Field

namespace Keyring.Ed25519

open Keyring.Ed25519.Field

/-- A point of the curve in extended coordinates: `x / z`, `y / z`, and `t = x y / z`. -/
structure Point where
  (x y z t : Nat)
  deriving DecidableEq, Repr

namespace Point

def zero : Point := ⟨0, 1, 1, 0⟩

def ofAffine (x y : Nat) : Point := ⟨x, y, 1, mul x y⟩

def neg (q : Point) : Point := ⟨Field.neg q.x, q.y, q.z, Field.neg q.t⟩

def add (q r : Point) : Point :=
  let a := mul (sub q.y q.x) (sub r.y r.x)
  let b := mul (Field.add q.y q.x) (Field.add r.y r.x)
  let c := mul (mul q.t (2 * d)) r.t
  let e := mul (2 * q.z) r.z
  let f := sub b a
  let g := sub e c
  let h := Field.add e c
  let i := Field.add b a
  ⟨mul f g, mul h i, mul g h, mul f i⟩

def double (q : Point) : Point := q.add q

def smul (n : Nat) (q : Point) : Point :=
  if h : n = 0 then zero
  else
    let half := smul (n / 2) q.double
    if n % 2 = 1 then half.add q else half
termination_by n
decreasing_by omega

def encode (q : Point) : Bytes :=
  let zi := inv q.z
  let x := mul q.x zi
  let y := mul q.y zi
  Bytes.ofNatLE 32 (y + x % 2 * Nat.pow 2 255)

theorem length_encode (q : Point) : q.encode.length = 32 := Bytes.length_ofNatLE _ _

/-- Reads 32 octets: `y` modulo the prime and a bit for the parity of `x`, which a zero `x` may
carry too. -/
def decode? (b : Bytes) : Option Point :=
  if b.length = 32 then
    let n := Bytes.toNatLE b
    let y := n % Nat.pow 2 255 % p
    let yy := mul y y
    (rootOfRatio? (sub yy 1) (Field.add (mul d yy) 1)).map fun x =>
      ofAffine (if x % 2 = n / Nat.pow 2 255 then x else Field.neg x) y
  else none

def base : Point :=
  let y := mul 4 (inv 5)
  (decode? (Bytes.ofNatLE 32 y)).getD zero

end Point

end Keyring.Ed25519
