import Keyring.SigningKey
import Keyring.Token.Claims
import Keyring.Token.Header

namespace Keyring.Token

inductive Fault
  | invalidToken
  | base64
  | json
  | invalidAlgorithm
  | invalidSignature
  deriving DecidableEq, Repr

def dot : UInt8 := 0x2E

def splitLast (b : UInt8) : Bytes → Option (Bytes × Bytes)
  | [] => none
  | c :: rest =>
      match splitLast b rest with
      | some (before, after) => some (c :: before, after)
      | none => if c = b then some ([], rest) else none

def signingInput (header : Header) (claims : Claims) : Bytes :=
  Base64Url.encode header.write ++ dot :: Base64Url.encode claims.write

/-- A token signed with the key of a document. Its header has to name the algorithm of such keys. -/
def encode [Scheme] (document : Bytes) (header : Header) (claims : Claims) :
    Except KeyError Bytes :=
  if header.alg ≠ .edDSA then .error (.crypto "InvalidAlgorithm")
  else
    match SigningKey.load document with
    | .ok key =>
        let text := signingInput header claims
        .ok (text ++ dot :: Base64Url.encode (key.sign text))
    | .error e => .error e

def decodePart (part : Bytes) : Except Fault Bytes :=
  match Base64Url.decode part with
  | .ok octets => .ok octets
  | .error _ => .error .base64

def ofJson {α : Type} : Except Json.Fault α → Except Fault α
  | .ok a => .ok a
  | .error _ => .error .json

/-- The header and the claims of a token whose signature a public key accepts. Dots beyond the last
two belong to the header's part. -/
def decode [Scheme] (key : Bytes) (token : Bytes) : Except Fault (Header × Claims) :=
  match splitLast dot token with
  | none => .error .invalidToken
  | some (message, signature) =>
      match splitLast dot message with
      | none => .error .invalidToken
      | some (headerPart, claimsPart) => do
          let header ← ofJson (Header.read (← decodePart headerPart))
          if header.alg ≠ .edDSA then .error .invalidAlgorithm
          else
            let signature ← decodePart signature
            if Scheme.verify key message signature then
              let claims ← ofJson (Claims.read (← decodePart claimsPart))
              return (header, claims)
            else .error .invalidSignature

end Keyring.Token
