import Keyring.Jwk
import Keyring.Pkcs8
import Keyring.Text.Quoted

namespace Keyring

/-- A key pair with the document it was loaded from. The public key and the name are kept beside
the seed that they follow from. -/
structure SigningKey [Scheme] where
  document : Bytes
  seed : Seed
  publicKey : Bytes
  id : String
  load_document : Pkcs8.load document = .ok seed
  publicKey_eq : publicKey = Scheme.publicKey seed
  id_eq : id = Jwk.thumbprintOf (Base64Url.encodeText publicKey)

namespace SigningKey

variable [Scheme]

def ofDocument (document : Bytes) (seed : Seed) (h : Pkcs8.load document = .ok seed) : SigningKey :=
  let publicKey := Scheme.publicKey seed
  ⟨document, seed, publicKey, Jwk.thumbprintOf (Base64Url.encodeText publicKey), h, rfl, rfl⟩

def load (document : Bytes) : Except KeyError SigningKey :=
  match h : Pkcs8.load document with
  | .ok seed => .ok (ofDocument document seed h)
  | .error fault => .error (.crypto ("Keypair parsing failed: " ++ fault.message))

def ofSeed (seed : Seed) : SigningKey := ofDocument (Pkcs8.write seed) seed (Pkcs8.load_write seed)

theorem load_write (seed : Seed) : load (Pkcs8.write seed) = .ok (ofSeed seed) := by
  unfold load
  split
  · rename_i found h
    rw [Pkcs8.load_write] at h
    cases h
    rfl
  · rename_i fault h
    rw [Pkcs8.load_write] at h
    cases h

def jwk (k : SigningKey) : Jwk :=
  ⟨k.id, Jwk.keyType, Jwk.curve, Base64Url.encodeText k.publicKey, Jwk.signing, Jwk.algorithm⟩

theorem jwk_eq (k : SigningKey) : k.jwk = Jwk.ofPublicKey k.publicKey := by
  simp only [jwk, Jwk.ofPublicKey, k.id_eq]

def sign (k : SigningKey) (message : Bytes) : Bytes := Scheme.sign k.seed message

def describe (k : SigningKey) (createdAt : String) : String :=
  "SigningKey \x7b key_id: " ++ Text.quoted k.id ++
    ", private_key: \"[REDACTED]\", created_at: " ++ createdAt ++ " \x7d"

end SigningKey

end Keyring
