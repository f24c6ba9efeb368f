import Keyring.Json.Number
import Keyring.Json.Text

namespace Keyring.Json

/-- A JSON value. The members of an object are sorted by name and no name occurs twice. -/
inductive Value
  | null
  | bool (b : Bool)
  | number (n : Number)
  | text (s : String)
  | list (items : List Value)
  | object (members : List (String × Value))

def Value.text? : Value → Option String
  | .text s => some s
  | _ => none

def insertMember (name : String) (value : Value) :
    List (String × Value) → List (String × Value)
  | [] => [(name, value)]
  | (other, old) :: rest =>
      if name < other then (name, value) :: (other, old) :: rest
      else if name = other then (name, value) :: rest
      else (other, old) :: insertMember name value rest

/-- The members in their order; of two with one name the later counts. -/
def sortMembers (members : List (String × Value)) : List (String × Value) :=
  members.foldl (fun sorted (name, value) => insertMember name value sorted) []

def wholeBytes (i : Int) : Bytes := Bytes.ofText (toString i)

def Number.write : Number → Bytes
  | .whole i => wholeBytes i
  | .double x => Bytes.ofText x.toText

mutual

def Value.write : Value → Bytes
  | .null => [0x6E, 0x75, 0x6C, 0x6C]
  | .bool true => [0x74, 0x72, 0x75, 0x65]
  | .bool false => [0x66, 0x61, 0x6C, 0x73, 0x65]
  | .number n => n.write
  | .text s => quote s
  | .list items => openList :: Value.writeItems items
  | .object members => openObject :: Value.writeMembers members

def Value.writeItems : List Value → Bytes
  | [] => [closeList]
  | [item] => item.write ++ [closeList]
  | item :: rest => item.write ++ comma :: Value.writeItems rest

def Value.writeMembers : List (String × Value) → Bytes
  | [] => [closeObject]
  | [(name, value)] => quote name ++ colon :: (value.write ++ [closeObject])
  | (name, value) :: rest =>
      quote name ++ colon :: (value.write ++ comma :: Value.writeMembers rest)

end

end Keyring.Json
