import Keyring.Json.Skip

namespace Keyring.Json

/-- Goes through the members of an object, read after its opening brace, and what follows it. At
each name `take` reads on from behind the name, colon included. The count bounds their number. -/
def foldMembers {σ ε : Type} (fault : Fault → ε)
    (take : String → σ → Bytes → Except ε (σ × Bytes)) :
    Nat → σ → Bytes → Except ε (σ × Bytes)
  | 0, _, _ => .error (fault .malformed)
  | count + 1, s, text =>
      match skipSpace text with
      | [] => .error (fault .endOfText)
      | b :: rest =>
          if b = quoteMark then
            match readText rest with
            | .error f => .error (fault f)
            | .ok (name, rest) =>
                match take name s rest with
                | .error e => .error e
                | .ok (s, rest) =>
                    match skipSpace rest with
                    | [] => .error (fault .endOfText)
                    | b :: rest =>
                        if b = closeObject then .ok (s, rest)
                        else if b = comma then foldMembers fault take count s rest
                        else .error (fault .malformed)
          else .error (fault .malformed)

def foldObject {σ ε : Type} (fault : Fault → ε)
    (take : String → σ → Bytes → Except ε (σ × Bytes)) (s : σ) (text : Bytes) :
    Except ε (σ × Bytes) :=
  match skipSpace text with
  | [] => .error (fault .endOfText)
  | b :: rest =>
      if b = closeObject then .ok (s, rest)
      else foldMembers fault take text.length s text

/-- What the members of one name hold, in their order. -/
def named {α : Type} (name : String) (members : List (String × α)) : List α :=
  (members.filter fun m => m.1 == name).map Prod.snd

def skipMember (text : Bytes) : Except Fault Bytes := (expectColon text).bind (skipValue [])

end Keyring.Json
