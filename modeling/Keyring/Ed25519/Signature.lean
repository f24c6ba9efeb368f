import Keyring.Ed25519.Point
import Keyring.Hash.Sha2

namespace Keyring.Ed25519

open Hash

/-- The secret multiple of the base point: the lower half of the digest, its three lowest bits
cleared and its highest set bit at place 254. -/
def secret (digest : Bytes) : Nat :=
  Bytes.toNatLE (digest.take 32) % Nat.pow 2 254 / 8 * 8 + Nat.pow 2 254

def scalar (digest : Bytes) : Nat := Bytes.toNatLE digest % order

def publicKey (seed : Bytes) : Bytes := (Point.base.smul (secret (sha512 seed))).encode

theorem length_publicKey (seed : Bytes) : (publicKey seed).length = 32 := Point.length_encode _

def signWith (seed key message : Bytes) : Bytes :=
  let digest := sha512 seed
  let r := scalar (sha512 (digest.drop 32 ++ message))
  let commitment := (Point.base.smul r).encode
  let challenge := scalar (sha512 (commitment ++ key ++ message))
  commitment ++ Bytes.ofNatLE 32 ((r + challenge * secret digest) % order)

def sign (seed message : Bytes) : Bytes := signWith seed (publicKey seed) message

/-- Whether a signature's first half is the canonical encoding of the point that its second half
and the key give. The second half must be below the order of the base point. -/
def verify (key message signature : Bytes) : Bool :=
  if signature.length = 64 then
    let commitment := signature.take 32
    let s := Bytes.toNatLE (signature.drop 32)
    if s < order then
      match Point.decode? key with
      | some a =>
          let challenge := scalar (sha512 (commitment ++ key ++ message))
          ((Point.base.smul s).add (a.neg.smul challenge)).encode == commitment
      | none => false
    else false
  else false

end Keyring.Ed25519
