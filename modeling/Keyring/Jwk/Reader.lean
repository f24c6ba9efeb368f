import Keyring.Json.Members
import Keyring.Jwk
import Keyring.Text.Quoted

namespace Keyring.Jwk

open Json

inductive Found
  | null
  | bool (b : Bool)
  | number (n : Json.Number)
  | text (s : String)
  | list
  | object
  deriving DecidableEq, Repr

def Found.describe : Found → String
  | .null => "null"
  | .bool b => "boolean \x60" ++ toString b ++ "\x60"
  | .number (.whole i) => "integer \x60" ++ toString i ++ "\x60"
  | .number (.double x) => "floating point \x60" ++ x.toText ++ "\x60"
  | .text s => "string " ++ Text.quoted s
  | .list => "sequence"
  | .object => "map"

inductive Wanted
  | text
  | key
  deriving DecidableEq, Repr

def Wanted.describe : Wanted → String
  | .text => "a string"
  | .key => "struct PublicKey"

inductive Fault
  | json (fault : Json.Fault)
  | mismatch (found : Found) (wanted : Wanted)
  | duplicate (m : Member)
  | missing (m : Member)
  | tooShort (items : Nat)
  deriving DecidableEq, Repr

/-- The text of a fault in well-formed JSON; a fault of the JSON itself has none. -/
def Fault.message? : Fault → Option String
  | .json _ => none
  | .mismatch found wanted =>
      some ("invalid type: " ++ found.describe ++ ", expected " ++ wanted.describe)
  | .duplicate m => some ("duplicate field \x60" ++ m.name ++ "\x60")
  | .missing m => some ("missing field \x60" ++ m.name ++ "\x60")
  | .tooShort items =>
      some (s!"invalid length {items}, expected struct PublicKey with 6 elements")

/-- What stands at the start. Of a list or an object only the first octet is looked at. -/
def look : Bytes → Except Json.Fault Found
  | [] => .error .endOfText
  | b :: rest =>
      if b = quoteMark then (readText rest).map fun (s, _) => .text s
      else if b = minusSign then (readNumber true rest).map fun (n, _) => .number n
      else if Json.isDigit b then (readNumber false (b :: rest)).map fun (n, _) => .number n
      else if b = 0x6E then (expectWord [0x75, 0x6C, 0x6C] rest).map fun _ => .null
      else if b = 0x74 then (expectWord [0x72, 0x75, 0x65] rest).map fun _ => .bool true
      else if b = 0x66 then (expectWord [0x61, 0x6C, 0x73, 0x65] rest).map fun _ => .bool false
      else if b = openList then .ok .list
      else if b = openObject then .ok .object
      else .error .malformed

def mismatch (wanted : Wanted) (text : Bytes) : Fault :=
  match look text with
  | .ok found => .mismatch found wanted
  | .error fault => .json fault

def ofJson {α : Type} : Except Json.Fault α → Except Fault α
  | .ok a => .ok a
  | .error fault => .error (.json fault)

def readString (text : Bytes) : Except Fault (String × Bytes) :=
  match skipSpace text with
  | [] => .error (.json .endOfText)
  | b :: rest =>
      if b = quoteMark then ofJson (readText rest) else .error (mismatch .text (b :: rest))

abbrev Draft := Member → Option String

def Draft.empty : Draft := fun _ => none

def Draft.set (d : Draft) (m : Member) (s : String) : Draft :=
  fun k => if k = m then some s else d k

/-- Reads on behind a member's name. A second member of one name is refused at its name; members of
other names are skipped. -/
def takeMember (name : String) (d : Draft) (text : Bytes) : Except Fault (Draft × Bytes) :=
  match Member.ofName? name with
  | some m =>
      if (d m).isSome then .error (.duplicate m)
      else do
        let rest ← ofJson (expectColon text)
        let (s, rest) ← readString rest
        return (d.set m s, rest)
  | none => do
      let rest ← ofJson (skipMember text)
      return (d, rest)

def Draft.complete (d : Draft) : Except Fault Jwk :=
  match Member.all.find? fun m => (d m).isNone with
  | some m => .error (.missing m)
  | none => .ok (ofMembers fun m => (d m).getD "")

def readItems : Nat → List Member → Draft → Bytes → Except Fault (Draft × Bytes)
  | _, [], d, text => .ok (d, text)
  | count, m :: rest, d, text =>
      match skipSpace text with
      | [] => .error (.json .endOfText)
      | b :: after =>
          if b = closeList then .error (.tooShort count)
          else do
            let start ←
              if count = 0 then .ok (b :: after)
              else if b = comma then
                match skipSpace after with
                | [] => .error (.json .endOfText)
                | c :: _ => if c = closeList then .error (.json .malformed) else .ok after
              else .error (.json .malformed)
            let (s, after) ← readString start
            readItems (count + 1) rest (d.set m s) after

def readList (text : Bytes) : Except Fault (Jwk × Bytes) := do
  let (d, rest) ← readItems 0 Member.all Draft.empty text
  match skipSpace rest with
  | [] => .error (.json .endOfText)
  | b :: rest =>
      if b = closeList then return (← d.complete, rest) else .error (.json .malformed)

def readObject (text : Bytes) : Except Fault (Jwk × Bytes) := do
  let (d, rest) ← foldObject Fault.json takeMember Draft.empty text
  return (← d.complete, rest)

/-- The key in a text, in one pass: the first fault met counts. -/
def read (text : Bytes) : Except Fault Jwk :=
  match skipSpace text with
  | [] => .error (.json .endOfText)
  | b :: rest => do
      let (k, rest) ←
        if b = openObject then readObject rest
        else if b = openList then readList rest
        else .error (mismatch .key (b :: rest))
      if (skipSpace rest).isEmpty then return k else .error (.json .malformed)

def ofText (s : String) : Except Fault Jwk := read (Bytes.ofText s)

end Keyring.Jwk
