import Keyring.Base64Url
import Keyring.Error
import Keyring.Hash.Sha2
import Keyring.Json.Text
import Keyring.Scheme

namespace Keyring

/-- The public half of a signing key as a JSON Web Key. -/
structure Jwk where
  kid : String
  kty : String
  crv : String
  x : String
  purpose : String
  alg : String
  deriving DecidableEq, Repr

namespace Jwk

inductive Member
  | kid
  | kty
  | crv
  | x
  | purpose
  | alg
  deriving DecidableEq, Repr

namespace Member

def all : List Member := [.kid, .kty, .crv, .x, .purpose, .alg]

def name : Member → String
  | .kid => "kid"
  | .kty => "kty"
  | .crv => "crv"
  | .x => "x"
  | .purpose => "use"
  | .alg => "alg"

def ofName? (s : String) : Option Member := all.find? fun m => m.name == s

theorem mem_all (m : Member) : m ∈ all := by cases m <;> decide

theorem ofName?_name (m : Member) : ofName? m.name = some m := by cases m <;> decide

end Member

def get (k : Jwk) : Member → String
  | .kid => k.kid
  | .kty => k.kty
  | .crv => k.crv
  | .x => k.x
  | .purpose => k.purpose
  | .alg => k.alg

def ofMembers (get : Member → String) : Jwk :=
  ⟨get .kid, get .kty, get .crv, get .x, get .purpose, get .alg⟩

theorem ofMembers_get (k : Jwk) : ofMembers k.get = k := rfl

open Json in
def writeMembers (k : Jwk) : List Member → Bytes
  | [] => [closeObject]
  | [m] => quote m.name ++ colon :: (quote (k.get m) ++ [closeObject])
  | m :: rest => quote m.name ++ colon :: (quote (k.get m) ++ comma :: writeMembers k rest)

/-- The octets that a signer signs to vouch for the key: its members in order, without spaces. -/
def signingInput (k : Jwk) : Bytes := Json.openObject :: writeMembers k Member.all

def keyType : String := "OKP"
def curve : String := "Ed25519"
def algorithm : String := "EdDSA"
def signing : String := "sig"

/-- The text whose digest names a public key: its required members in alphabetical order. -/
def canonicalText (x : String) : Bytes :=
  Bytes.ofText "\x7b\"crv\":\"" ++ Bytes.ofText curve ++ Bytes.ofText "\",\"kty\":\"" ++
    Bytes.ofText keyType ++ Bytes.ofText "\",\"x\":\"" ++ Bytes.ofText x ++ Bytes.ofText "\"\x7d"

def thumbprintOf (x : String) : String := Base64Url.encodeText (Hash.sha256 (canonicalText x))

def thumbprint (k : Jwk) : String := thumbprintOf k.x

def ofPublicKey (key : Bytes) : Jwk :=
  let x := Base64Url.encodeText key
  ⟨thumbprintOf x, keyType, curve, x, signing, algorithm⟩

def publicKey? (k : Jwk) : Except Base64Url.Fault Bytes := Base64Url.decode (Bytes.ofText k.x)

def verify [Scheme] (k : Jwk) (message signature : Bytes) : Bool :=
  match k.publicKey? with
  | .ok key => Scheme.verify key message signature
  | .error _ => false

def decodingKey (k : Jwk) : Except KeyError Bytes :=
  match k.publicKey? with
  | .ok key => .ok key
  | .error fault => .error (.crypto ("Invalid public key: Base64 error: " ++ fault.message))

end Jwk

end Keyring
