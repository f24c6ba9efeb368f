import Keyring.Json.Reader

namespace Keyring.Token

open Json

abbrev Claims := Value

namespace Claims

def registered : List String := ["exp", "nbf", "sub", "iss", "aud"]

def times : List String := ["exp", "nbf"]

/-- Whether a value may stand for a registered claim: the subject is no list and no object, and a
time is none with anything in it. -/
def isReadable (name : String) (v : Value) : Bool :=
  match v with
  | .list [] | .object [] => name != "sub"
  | .list _ | .object _ => name != "sub" && !times.contains name
  | _ => true

/-- Whether claims are an object in which no registered claim stands twice, or a list of the
registered claims alone. -/
def areReadable : Outline → Bool
  | .object members =>
      registered.all fun name =>
        match members.filter fun member => member.1 == name with
        | [] => true
        | [(_, v)] => isReadable name v
        | _ => false
  | .other (.list items) =>
      items.length == registered.length &&
        (registered.zip items).all fun (name, v) => isReadable name v
  | .other _ => false

def read (text : Bytes) : Except Fault Claims := do
  let (outline, rest) ← readOutline depthLimit text
  expectEnd rest
  if areReadable outline then return outline.value else .error .malformed

def write (claims : Claims) : Bytes := Value.write claims

end Claims

end Keyring.Token
