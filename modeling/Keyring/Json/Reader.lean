import Keyring.Json.Value

namespace Keyring.Json

def readScalar : Bytes → Except Fault (Value × Bytes)
  | [] => .error .endOfText
  | b :: rest =>
      if b = quoteMark then (readText rest).map fun (s, rest) => (.text s, rest)
      else if b = minusSign then (readNumber true rest).map fun (n, rest) => (.number n, rest)
      else if isDigit b then (readNumber false (b :: rest)).map fun (n, rest) => (.number n, rest)
      else if b = 0x6E then (expectWord [0x75, 0x6C, 0x6C] rest).map (.null, ·)
      else if b = 0x74 then (expectWord [0x72, 0x75, 0x65] rest).map (.bool true, ·)
      else if b = 0x66 then (expectWord [0x61, 0x6C, 0x73, 0x65] rest).map (.bool false, ·)
      else .error .malformed

/-- Items read by `item` with commas between them, up to the octet `close`. The count bounds their
number. -/
def readSeries {α : Type} (close : UInt8) (item : Bytes → Except Fault (α × Bytes)) :
    Nat → Bytes → Except Fault (List α × Bytes)
  | 0, _ => .error .malformed
  | count + 1, text =>
      match item text with
      | .error fault => .error fault
      | .ok (first, rest) =>
          match skipSpace rest with
          | [] => .error .endOfText
          | b :: rest =>
              if b = close then .ok ([first], rest)
              else if b = comma then
                match readSeries close item count rest with
                | .error fault => .error fault
                | .ok (more, rest) => .ok (first :: more, rest)
              else .error .malformed

def readSeriesOrNone {α : Type} (close : UInt8) (item : Bytes → Except Fault (α × Bytes))
    (text : Bytes) : Except Fault (List α × Bytes) :=
  match skipSpace text with
  | [] => .error .endOfText
  | b :: rest => if b = close then .ok ([], rest) else readSeries close item text.length text

def readMember {α : Type} (value : Bytes → Except Fault (α × Bytes)) (text : Bytes) :
    Except Fault ((String × α) × Bytes) :=
  match skipSpace text with
  | [] => .error .endOfText
  | b :: rest =>
      if b = quoteMark then do
        let (name, rest) ← readText rest
        let rest ← expectColon rest
        let (found, rest) ← value rest
        return ((name, found), rest)
      else .error .malformed

def readValue : Nat → Bytes → Except Fault (Value × Bytes)
  | depth, text =>
      match skipSpace text with
      | [] => .error .endOfText
      | b :: rest =>
          if b = openList then
            match depth with
            | 0 => .error .malformed
            | depth + 1 =>
                (readSeriesOrNone closeList (readValue depth) rest).map fun (items, rest) =>
                  (.list items, rest)
          else if b = openObject then
            match depth with
            | 0 => .error .malformed
            | depth + 1 =>
                (readSeriesOrNone closeObject (readMember (readValue depth)) rest).map
                  fun (members, rest) => (.object (sortMembers members), rest)
          else readScalar (b :: rest)

/-- A value at whose top the members of an object stand as they were written, in their order and
with repeated names. -/
inductive Outline
  | object (members : List (String × Value))
  | other (v : Value)

def Outline.value : Outline → Value
  | .object members => .object (sortMembers members)
  | .other v => v

def readOutline (depth : Nat) (text : Bytes) : Except Fault (Outline × Bytes) :=
  match skipSpace text with
  | [] => .error .endOfText
  | b :: rest =>
      if b = openObject then
        match depth with
        | 0 => .error .malformed
        | depth + 1 =>
            (readSeriesOrNone closeObject (readMember (readValue depth)) rest).map
              fun (members, rest) => (.object members, rest)
      else (readValue depth (b :: rest)).map fun (v, rest) => (.other v, rest)

def expectEnd (text : Bytes) : Except Fault Unit :=
  if (skipSpace text).isEmpty then .ok () else .error .malformed

def depthLimit : Nat := 127

def read (text : Bytes) : Except Fault Value := do
  let (value, rest) ← readValue depthLimit text
  expectEnd rest
  return value

end Keyring.Json
