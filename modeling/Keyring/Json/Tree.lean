import Keyring.Json.Text

namespace Keyring.Json

/-- A JSON value as it stands in a text: numbers by their digits, members in their order. -/
inductive Tree
  | null
  | bool (b : Bool)
  | numeral (digits : Bytes)
  | text (s : String)
  | list (items : List Tree)
  | object (members : List (String × Tree))

namespace Tree

def text? : Tree → Option String
  | .text s => some s
  | _ => none

def texts (ss : List String) : Tree := .list (ss.map .text)

mutual

def write : Tree → Bytes
  | .null => [0x6E, 0x75, 0x6C, 0x6C]
  | .bool true => [0x74, 0x72, 0x75, 0x65]
  | .bool false => [0x66, 0x61, 0x6C, 0x73, 0x65]
  | .numeral digits => digits
  | .text s => quote s
  | .list items => openList :: writeItems items
  | .object members => openObject :: writeMembers members

def writeItems : List Tree → Bytes
  | [] => [closeList]
  | [item] => item.write ++ [closeList]
  | item :: rest => item.write ++ comma :: writeItems rest

def writeMembers : List (String × Tree) → Bytes
  | [] => [closeObject]
  | [(name, t)] => quote name ++ colon :: (t.write ++ [closeObject])
  | (name, t) :: rest => quote name ++ colon :: (t.write ++ comma :: writeMembers rest)

end

end Tree

end Keyring.Json
