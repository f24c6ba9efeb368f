import Keyring.Bytes

namespace Keyring.Ed25519

def p : Nat := Nat.pow 2 255 - 19

def order : Nat := Nat.pow 2 252 + 27742317777372353535851937790883648493

def powMod (m b e : Nat) : Nat :=
  if h : e = 0 then 1 % m
  else
    let half := powMod m (b * b % m) (e / 2)
    if e % 2 = 1 then half * b % m else half
termination_by e
decreasing_by omega

theorem powMod_eq (m b e : Nat) : powMod m b e = Nat.pow b e % m := by
  show _ = b ^ e % m
  fun_induction powMod m b e with
  | case1 b => simp
  | case2 b e he half hodd ih =>
      have hpow : b ^ e = (b * b) ^ (e / 2) * b := by
        rw [← Nat.pow_two, ← Nat.pow_mul, ← Nat.pow_succ]
        exact congrArg (b ^ ·) (by omega)
      have hhalf : half = (b * b) ^ (e / 2) % m := by rw [Nat.pow_mod]; exact ih
      rw [hhalf, hpow, Nat.mod_mul_mod]
  | case3 b e he half hodd ih =>
      have hpow : b ^ e = (b * b) ^ (e / 2) := by
        rw [← Nat.pow_two, ← Nat.pow_mul]
        exact congrArg (b ^ ·) (by omega)
      rw [hpow, Nat.pow_mod]
      exact ih

namespace Field

def add (a b : Nat) : Nat := (a + b) % p
def sub (a b : Nat) : Nat := (a + p - b % p) % p
def mul (a b : Nat) : Nat := a * b % p
def neg (a : Nat) : Nat := sub 0 a
def pow (a e : Nat) : Nat := powMod p a e

def inv (a : Nat) : Nat := pow a (p - 2)

end Field

/-- The constant of the curve `-x² + y² = 1 + d x² y²`. -/
def d : Nat := Field.mul (Field.neg 121665) (Field.inv 121666)

def rootOfMinusOne : Nat := Field.pow 2 ((p - 1) / 4)

def rootOfRatio? (u v : Nat) : Option Nat :=
  let v3 := Field.mul (Field.mul v v) v
  let v7 := Field.mul (Field.mul v3 v3) v
  let x := Field.mul (Field.mul u v3) (Field.pow (Field.mul u v7) ((p - 5) / 8))
  let vxx := Field.mul v (Field.mul x x)
  if vxx = u % p then some x
  else if vxx = Field.neg u then some (Field.mul x rootOfMinusOne)
  else none

end Keyring.Ed25519
