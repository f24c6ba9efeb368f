import Keyring.Pkcs8.Der
import Keyring.Scheme

namespace Keyring.Pkcs8

inductive Fault
  | invalidEncoding
  | versionNotSupported
  | wrongAlgorithm
  | publicKeyIsMissing
  | inconsistentComponents
  deriving DecidableEq, Repr

def Fault.message : Fault → String
  | .invalidEncoding => "InvalidEncoding"
  | .versionNotSupported => "VersionNotSupported"
  | .wrongAlgorithm => "WrongAlgorithm"
  | .publicKeyIsMissing => "PublicKeyIsMissing"
  | .inconsistentComponents => "InconsistentComponents"

/-- What a document holds: the octets of the seed, and those of a public key beside it. -/
structure Parts where
  secret : Bytes
  publicKey : Option Bytes
  deriving DecidableEq

def algorithm : Bytes := [0x06, 0x03, 0x2B, 0x65, 0x70]

def demand {α : Type} : Option α → Except Fault α
  | some a => .ok a
  | none => .error .invalidEncoding

def skipAttributes (text : Bytes) : Except Fault Bytes :=
  match text with
  | 0xA0 :: _ => (demand (Der.expect? 0xA0 text)).map (·.2)
  | _ => .ok text

/-- The public key of a version 1 document, in either of its two forms, and what follows it. -/
def readPublicKey (text : Bytes) : Except Fault (Bytes × Bytes) :=
  match text with
  | [] => .error .publicKeyIsMissing
  | 0xA1 :: _ => do
      let (content, rest) ← demand (Der.expect? 0xA1 text)
      let bits ← demand ((Der.only? 0x03 content).bind Der.wholeBits?)
      return (bits, rest)
  | _ => do
      let (content, rest) ← demand (Der.expect? 0x81 text)
      let bits ← demand (Der.wholeBits? content)
      return (bits, rest)

def readBody (text : Bytes) : Except Fault Parts := do
  let (version, text) ← demand (Der.smallInteger? text)
  if 1 < version then .error .versionNotSupported
  let (found, text) ← demand (Der.expect? 0x30 text)
  if found ≠ algorithm then .error .wrongAlgorithm
  let (secret, text) ← demand (Der.expect? 0x04 text)
  let text ← skipAttributes text
  if version = 0 then
    if text.isEmpty then return ⟨secret, none⟩ else .error .invalidEncoding
  else
    let (key, text) ← readPublicKey text
    if text.isEmpty then return ⟨secret, some key⟩ else .error .invalidEncoding

def read (document : Bytes) : Except Fault Parts := do
  let (body, rest) ← demand (Der.expect? 0x30 document)
  let parts ← readBody body
  if rest.isEmpty then
    let secret ← demand (Der.only? 0x04 parts.secret)
    return { parts with secret := secret }
  else .error .invalidEncoding

/-- The seed of a document. A public key in it must be the seed's own. -/
def load [Scheme] (document : Bytes) : Except Fault Seed := do
  let parts ← read document
  let seed ← demand (Seed.ofBytes? parts.secret)
  match parts.publicKey with
  | none => return seed
  | some key =>
      if key = Scheme.publicKey seed then return seed
      else if key.length = 32 then .error .inconsistentComponents
      else .error .invalidEncoding

def body (seed : Seed) : Bytes :=
  Der.write 0x02 [0] ++ (Der.write 0x30 algorithm ++ Der.write 0x04 (Der.write 0x04 seed.bytes))

def write (seed : Seed) : Bytes := Der.write 0x30 (body seed)

theorem readBody_body (seed : Seed) :
    readBody (body seed) = .ok ⟨Der.write 0x04 seed.bytes, none⟩ := by
  have hversion (rest : Bytes) :
      Der.smallInteger? (Der.write 0x02 [0] ++ rest) = some (0, rest) := by
    simp [Der.smallInteger?, Der.expect?_write]
  have halgorithm (rest : Bytes) := Der.expect?_write 0x30 algorithm
    (by decide) (by decide) rest
  have hsecret := Der.expect?_write 0x04 (Der.write 0x04 seed.bytes)
    (by decide) (by simp [Der.write, seed.length_bytes]) []
  rw [List.append_nil] at hsecret
  simp [readBody, body, hversion, halgorithm, hsecret, demand, skipAttributes, bind, Except.bind,
    pure, Except.pure]

theorem read_write (seed : Seed) : read (write seed) = .ok ⟨seed.bytes, none⟩ := by
  have hbody := Der.expect?_write 0x30 (body seed) (by decide)
    (by simp [body, Der.write, algorithm, seed.length_bytes]) []
  rw [List.append_nil] at hbody
  have hseed := Der.only?_write 0x04 seed.bytes (by decide)
    (by simp [seed.length_bytes])
  simp [read, write, hbody, readBody_body, hseed, demand, bind, Except.bind, pure, Except.pure]

theorem load_write [Scheme] (seed : Seed) : load (write seed) = .ok seed := by
  simp [load, read_write, demand, Seed.ofBytes?_bytes, bind, Except.bind, pure, Except.pure]

end Keyring.Pkcs8
