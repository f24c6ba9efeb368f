import Keyring.Proofs.Base64Url
import Keyring.SigningKey

namespace Keyring

/-- A scheme without secrets: a signature is the key and the message. -/
@[reducible]
def Scheme.plain : Scheme where
  publicKey seed := seed.bytes
  sign seed message := seed.bytes ++ message
  verify key message signature := signature == key ++ message
  length_publicKey seed := seed.length_bytes

theorem Scheme.sound_plain : @Scheme.Sound .plain := by
  intro seed message
  show (seed.bytes ++ message == seed.bytes ++ message) = true
  exact beq_self_eq_true _

namespace SigningKey

variable [Scheme]

/-- A key is what its document holds. -/
theorem load_of_document (k : SigningKey) : load k.document = .ok k := by
  obtain ⟨document, seed, publicKey, id, hload, rfl, rfl⟩ := k
  unfold load
  split
  · rename_i found hfound
    cases hload.symm.trans hfound
    rfl
  · rename_i fault hfault
    cases hload.symm.trans hfault

theorem document_of_load {document : Bytes} {k : SigningKey} (h : load document = .ok k) :
    k.document = document := by
  unfold load at h
  split at h
  · cases h
    rfl
  · cases h

theorem publicKey?_jwk (k : SigningKey) : k.jwk.publicKey? = .ok k.publicKey :=
  Base64Url.decode_encodeText k.publicKey

theorem decodingKey_jwk (k : SigningKey) : k.jwk.decodingKey = .ok k.publicKey := by
  rw [Jwk.decodingKey, publicKey?_jwk]

theorem verify_sign (h : Scheme.Sound) (k : SigningKey) (message : Bytes) :
    k.jwk.verify message (k.sign message) = true := by
  rw [Jwk.verify, publicKey?_jwk]
  show Scheme.verify k.publicKey message (Scheme.sign k.seed message) = true
  rw [k.publicKey_eq]
  exact h k.seed message

end SigningKey

end Keyring
