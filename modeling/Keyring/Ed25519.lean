import Keyring.Ed25519.Signature
import Keyring.Scheme

namespace Keyring

/-- Ed25519 with deterministic signatures. -/
instance : Scheme where
  publicKey seed := Ed25519.publicKey seed.bytes
  sign seed message := Ed25519.sign seed.bytes message
  verify key message signature := Ed25519.verify key message signature
  length_publicKey seed := Ed25519.length_publicKey seed.bytes

end Keyring
