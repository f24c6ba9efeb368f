namespace Keyring.Rotation

inductive Handle
  | owned
  /-- Given to a call that waits for the end of the loop, and has yet to begin. A shutdown begins
  by stopping the loop. -/
  | given (shutdown : Bool)
  | waiting
  | gone
  deriving DecidableEq, Repr

structure Ownership where
  handle : Handle
  stopped : Bool
  deriving DecidableEq, Repr

namespace Ownership

def new : Ownership := ⟨.owned, false⟩

def stop (o : Ownership) : Ownership :=
  if o.handle = .owned then { o with stopped := true } else o

def drop (o : Ownership) : Ownership := if o.handle = .owned then ⟨.gone, true⟩ else o

def join (o : Ownership) : Ownership :=
  if o.handle = .owned then { o with handle := .given false } else o

def shutdown (o : Ownership) : Ownership :=
  if o.handle = .owned then { o with handle := .given true } else o

def poll (ended : Bool) (o : Ownership) : Ownership :=
  let next := if ended then .gone else .waiting
  match o.handle with
  | .given shutdown => ⟨next, o.stopped || shutdown⟩
  | .waiting => { o with handle := next }
  | _ => o

/-- The call is given up. If it had yet to begin, the handle goes as if its owner let it go; a
call that waits leaves the loop as it is. -/
def giveUp (o : Ownership) : Ownership :=
  match o.handle with
  | .given _ => ⟨.gone, true⟩
  | .waiting => { o with handle := .gone }
  | _ => o

end Ownership

end Keyring.Rotation
