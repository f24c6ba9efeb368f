import Keyring.Bytes

namespace Keyring

structure Seed where
  bytes : Bytes
  length_bytes : bytes.length = 32
  deriving DecidableEq

def Seed.ofBytes? (b : Bytes) : Option Seed :=
  if h : b.length = 32 then some ⟨b, h⟩ else none

theorem Seed.ofBytes?_bytes (s : Seed) : Seed.ofBytes? s.bytes = some s := by
  simp [Seed.ofBytes?, s.length_bytes]

/-- A signature scheme with seeds and public keys of 32 octets. -/
class Scheme where
  publicKey : Seed → Bytes
  sign : Seed → Bytes → Bytes
  verify : Bytes → Bytes → Bytes → Bool
  length_publicKey : ∀ seed, (publicKey seed).length = 32

/-- A signature made with a seed is accepted under the public key of that seed. -/
def Scheme.Sound [Scheme] : Prop :=
  ∀ seed message, Scheme.verify (Scheme.publicKey seed) message (Scheme.sign seed message) = true

end Keyring
