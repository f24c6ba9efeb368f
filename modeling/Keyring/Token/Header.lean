import Keyring.Json.Members
import Keyring.Token.EmbeddedKey

namespace Keyring.Token

open Json

/-- The header of a token. Most headers name a type, an algorithm and a key only. -/
structure Header where
  typ : Option String := some "JWT"
  alg : Algorithm
  cty : Option String := none
  jku : Option String := none
  jwk : Option EmbeddedKey := none
  kid : Option String := none
  x5u : Option String := none
  x5c : Option (List String) := none
  x5t : Option String := none
  x5tS256 : Option String := none
  deriving DecidableEq, Repr

namespace Header

inductive Member
  | typ | alg | cty | jku | jwk | kid | x5u | x5c | x5t | x5tS256
  deriving DecidableEq, Repr

namespace Member

def all : List Member := [.typ, .alg, .cty, .jku, .jwk, .kid, .x5u, .x5c, .x5t, .x5tS256]

def name : Member → String
  | .typ => "typ"
  | .alg => "alg"
  | .cty => "cty"
  | .jku => "jku"
  | .jwk => "jwk"
  | .kid => "kid"
  | .x5u => "x5u"
  | .x5c => "x5c"
  | .x5t => "x5t"
  | .x5tS256 => "x5t#S256"

def ofName? (s : String) : Option Member := all.find? fun m => m.name == s

theorem ofName?_name (m : Member) : ofName? m.name = some m := by cases m <;> decide

/-- What a header has under a name. -/
def Content : Member → Type
  | .alg => Algorithm
  | .jwk => Option EmbeddedKey
  | .x5c => Option (List String)
  | .typ | .cty | .jku | .kid | .x5u | .x5t | .x5tS256 => Option String

/-- How it is written, if there is something to write. -/
def tree? : (m : Member) → m.Content → Option Tree
  | .alg, a => some (.text a.name)
  | .jwk, k => k.map fun k => .object k.members
  | .x5c, ss => ss.map .texts
  | .typ, s | .cty, s | .jku, s | .kid, s | .x5u, s | .x5t, s | .x5tS256, s => s.map .text

/-- What a header has under a name that it does not mention. -/
def absent? : (m : Member) → Option m.Content
  | .alg => none
  | .jwk => some none
  | .x5c => some none
  | .typ | .cty | .jku | .kid | .x5u | .x5t | .x5tS256 => some none

end Member

def get (h : Header) : (m : Member) → m.Content
  | .typ => h.typ
  | .alg => h.alg
  | .cty => h.cty
  | .jku => h.jku
  | .jwk => h.jwk
  | .kid => h.kid
  | .x5u => h.x5u
  | .x5c => h.x5c
  | .x5t => h.x5t
  | .x5tS256 => h.x5tS256

def ofContents? (f : (m : Member) → Option m.Content) : Option Header := do
  return {
    typ := ← f .typ
    alg := ← f .alg
    cty := ← f .cty
    jku := ← f .jku
    jwk := ← f .jwk
    kid := ← f .kid
    x5u := ← f .x5u
    x5c := ← f .x5c
    x5t := ← f .x5t
    x5tS256 := ← f .x5tS256 }

def members (h : Header) : List (String × Tree) :=
  Member.all.filterMap fun m => (m.tree? (h.get m)).map (m.name, ·)

def write (h : Header) : Bytes := Tree.write (.object h.members)

/-- What a header is found to have, as far as it has been read. -/
abbrev Draft := (m : Member) → Option m.Content

namespace Draft

def empty : Draft := fun _ => none

def set (d : Draft) (m : Member) (c : m.Content) : Draft :=
  fun k => if h : k = m then some (h ▸ c) else d k

def complete? (d : Draft) : Option Header := ofContents? fun m => (d m).or m.absent?

def complete (d : Draft) : Except Fault Header :=
  match d.complete? with
  | some h => .ok h
  | none => .error .malformed

end Draft

def null : Bytes := [0x75, 0x6C, 0x6C]

def readString (text : Bytes) : Except Fault (String × Bytes) :=
  match skipSpace text with
  | [] => .error .endOfText
  | b :: rest => if b = quoteMark then readText rest else .error .malformed

def readStrings (text : Bytes) : Except Fault (List String × Bytes) :=
  match skipSpace text with
  | [] => .error .endOfText
  | b :: rest =>
      if b = openList then readSeriesOrNone closeList readString rest else .error .malformed

def readOptional {α : Type} (read : Bytes → Except Fault (α × Bytes)) (text : Bytes) :
    Except Fault (Option α × Bytes) :=
  match skipSpace text with
  | [] => .error .endOfText
  | b :: rest =>
      if b = 0x6E then (expectWord null rest).map (none, ·)
      else (read (b :: rest)).map fun (a, rest) => (some a, rest)

def readNull (text : Bytes) : Except Fault (Unit × Bytes) :=
  match skipSpace text with
  | [] => .error .endOfText
  | b :: rest => if b = 0x6E then (expectWord null rest).map ((), ·) else .error .malformed

def ofName (name : String) : Except Fault Algorithm :=
  match Algorithm.ofName? name with
  | some alg => .ok alg
  | none => .error .malformed

/-- An algorithm, by its text or as the one member of an object, with null as its value. -/
def readAlgorithm (text : Bytes) : Except Fault (Algorithm × Bytes) :=
  match skipSpace text with
  | [] => .error .endOfText
  | b :: rest =>
      if b = openObject then do
        let ((name, _), rest) ← readMember readNull rest
        match skipSpace rest with
        | [] => .error .endOfText
        | c :: rest =>
            if c = closeObject then (ofName name).map (·, rest) else .error .malformed
      else do
        let (name, rest) ← readString (b :: rest)
        (ofName name).map (·, rest)

def keyDepth : Nat := depthLimit - 2

def Member.read : (m : Member) → Bytes → Except Fault (m.Content × Bytes)
  | .alg => readAlgorithm
  | .jwk => readOptional (EmbeddedKey.read keyDepth)
  | .x5c => readOptional readStrings
  | .typ | .cty | .jku | .kid | .x5u | .x5t | .x5tS256 => readOptional readString

def takeValue (m : Member) (d : Draft) (text : Bytes) : Except Fault (Draft × Bytes) :=
  (m.read text).map fun (c, rest) => (d.set m c, rest)

/-- Reads on behind a member's name. Members with a meaning stand at most once, all others are
skipped. -/
def takeMember (name : String) (d : Draft) (text : Bytes) : Except Fault (Draft × Bytes) :=
  match Member.ofName? name with
  | some m =>
      if (d m).isSome then .error .malformed else (expectColon text).bind (takeValue m d)
  | none => (skipMember text).map (d, ·)

def readItems : List Member → Draft → Bytes → Except Fault (Draft × Bytes)
  | [], _, _ => .error .malformed
  | m :: more, d, text => do
      let (d, rest) ← takeValue m d text
      match skipSpace rest with
      | [] => .error .endOfText
      | b :: rest =>
          if b = closeList ∧ more = [] then return (d, rest)
          else if b = comma then readItems more d rest
          else .error .malformed

/-- Reads an object that names its algorithm, or the list of all that a header has. -/
def readDraft (text : Bytes) : Except Fault (Draft × Bytes) :=
  match skipSpace text with
  | [] => .error .endOfText
  | b :: rest =>
      if b = openObject then foldObject id takeMember Draft.empty rest
      else if b = openList then readItems Member.all Draft.empty rest
      else .error .malformed

def read (text : Bytes) : Except Fault Header := do
  let (d, rest) ← readDraft text
  expectEnd rest
  d.complete

end Header

end Keyring.Token
