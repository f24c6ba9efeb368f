import Keyring.Json.Members
import Keyring.Json.Reader
import Keyring.Json.Tree
import Keyring.Token.Algorithm

namespace Keyring.Token

open Json

/-- What a key can be used with: an algorithm of tokens, or one that encrypts. -/
inductive KeyAlgorithm
  | token (a : Algorithm)
  | rsa15
  | rsaOaep
  | rsaOaep256
  deriving DecidableEq, Repr

namespace KeyAlgorithm

def all : List KeyAlgorithm := Algorithm.all.map .token ++ [.rsa15, .rsaOaep, .rsaOaep256]

def name : KeyAlgorithm → String
  | .token a => a.name
  | .rsa15 => "RSA1_5"
  | .rsaOaep => "RSA-OAEP"
  | .rsaOaep256 => "RSA-OAEP-256"

def ofName? (s : String) : Option KeyAlgorithm := all.find? fun a => a.name == s

theorem ofName?_name (a : KeyAlgorithm) : ofName? a.name = some a := by
  cases a with
  | token a => cases a <;> decide
  | rsa15 | rsaOaep | rsaOaep256 => decide

end KeyAlgorithm

inductive KeyType
  | ec
  | rsa
  | oct
  | okp
  deriving DecidableEq, Repr

namespace KeyType

def all : List KeyType := [.ec, .rsa, .oct, .okp]

def name : KeyType → String
  | .ec => "EC"
  | .rsa => "RSA"
  | .oct => "oct"
  | .okp => "OKP"

def ofName? (s : String) : Option KeyType := all.find? fun t => t.name == s

theorem ofName?_name (t : KeyType) : ofName? t.name = some t := by cases t <;> decide

end KeyType

inductive Curve
  | p256
  | p384
  | p521
  | ed25519
  deriving DecidableEq, Repr

namespace Curve

def all : List Curve := [.p256, .p384, .p521, .ed25519]

def name : Curve → String
  | .p256 => "P-256"
  | .p384 => "P-384"
  | .p521 => "P-521"
  | .ed25519 => "Ed25519"

def ofName? (s : String) : Option Curve := all.find? fun c => c.name == s

theorem ofName?_name (c : Curve) : ofName? c.name = some c := by cases c <;> decide

end Curve

/-- What a key consists of. -/
inductive Material
  | ec (curve : Curve) (x y : String)
  | rsa (n e : String)
  | oct (k : String)
  | okp (curve : Curve) (x : String)
  deriving DecidableEq, Repr

/-- A key that stands in a header. Nothing is done with it, but it has to be one. -/
structure EmbeddedKey where
  purpose : Option String
  operations : Option (List String)
  alg : Option KeyAlgorithm
  kid : Option String
  x5u : Option String
  x5c : Option (List String)
  x5t : Option String
  x5tS256 : Option String
  material : Material
  deriving DecidableEq, Repr

def Material.members : Material → List (String × Tree)
  | .ec curve x y =>
      [("kty", .text KeyType.ec.name), ("crv", .text curve.name), ("x", .text x), ("y", .text y)]
  | .rsa n e => [("kty", .text KeyType.rsa.name), ("n", .text n), ("e", .text e)]
  | .oct k => [("kty", .text KeyType.oct.name), ("k", .text k)]
  | .okp curve x => [("kty", .text KeyType.okp.name), ("crv", .text curve.name), ("x", .text x)]

/-- The members of a key in the order in which they are written; what it does not have is left
out. -/
def EmbeddedKey.members (k : EmbeddedKey) : List (String × Tree) :=
  let member {α : Type} (name : String) (tree : α → Tree) (a : Option α) : List (String × Tree) :=
    a.toList.map fun a => (name, tree a)
  member "use" .text k.purpose ++ member "key_ops" .texts k.operations ++
    member "alg" (fun a => .text a.name) k.alg ++ member "kid" .text k.kid ++
    member "x5u" .text k.x5u ++ member "x5c" .texts k.x5c ++ member "x5t" .text k.x5t ++
    member "x5t#S256" .text k.x5tS256 ++ k.material.members

namespace EmbeddedKey

def text? : Outline → Option String
  | .other v => v.text?
  | .object _ => none

def texts? : Outline → Option (List String)
  | .other (.list items) => items.mapM Value.text?
  | _ => none

def isNull : Value → Bool
  | .null => true
  | _ => false

def isNullOrEmpty : Value → Bool
  | .null | .object [] => true
  | _ => false

/-- One of several names. It may also be the one member of an object, if it has no value there. -/
def choice? {α : Type} (ofName? : String → Option α) (isNothing : Value → Bool) :
    Outline → Option α
  | .other v => v.text?.bind ofName?
  | .object [(s, v)] => if isNothing v then ofName? s else none
  | .object _ => none

def one? {α : Type} (read : Outline → Option α) : List Outline → Option α
  | [value] => read value
  | _ => none

/-- What stands once at most; null stands for nothing. -/
def atMostOne? {α : Type} (read : Outline → Option α) : List Outline → Option (Option α)
  | [] | [.other .null] => some none
  | [value] => (read value).map some
  | _ => none

end EmbeddedKey

open EmbeddedKey in
def Material.ofMembers? (ms : List (String × Outline)) : Option Material := do
  let text name := one? text? (named name ms)
  let curve := one? (choice? Curve.ofName? isNull) (named "crv" ms)
  match ← one? (choice? KeyType.ofName? isNull) (named "kty" ms) with
  | .ec => return .ec (← curve) (← text "x") (← text "y")
  | .rsa => return .rsa (← text "n") (← text "e")
  | .oct => return .oct (← text "k")
  | .okp => return .okp (← curve) (← text "x")

namespace EmbeddedKey

/-- The key with these members. Those of other names do not matter. -/
def ofMembers? (ms : List (String × Outline)) : Option EmbeddedKey := do
  let text name := atMostOne? text? (named name ms)
  let texts name := atMostOne? texts? (named name ms)
  return {
    purpose := ← text "use"
    operations := ← texts "key_ops"
    alg := ← atMostOne? (choice? KeyAlgorithm.ofName? isNullOrEmpty) (named "alg" ms)
    kid := ← text "kid"
    x5u := ← text "x5u"
    x5c := ← texts "x5c"
    x5t := ← text "x5t"
    x5tS256 := ← text "x5t#S256"
    material := ← Material.ofMembers? ms }

def read (depth : Nat) (text : Bytes) : Except Fault (EmbeddedKey × Bytes) :=
  match skipSpace text with
  | [] => .error .endOfText
  | b :: rest =>
      if b = openObject then do
        let (members, rest) ← readSeriesOrNone closeObject (readMember (readOutline depth)) rest
        match ofMembers? members with
        | some key => return (key, rest)
        | none => .error .malformed
      else .error .malformed

end EmbeddedKey

end Keyring.Token
