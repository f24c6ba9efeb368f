namespace Keyring.Rotation

inductive Phase
  | bootstrapping
  | awaiting
  | idle
  | backingOff
  | stopped
  | failed
  deriving DecidableEq, Repr

namespace Phase

def label : Phase → String
  | .bootstrapping => "bootstrapping"
  | .awaiting => "awaiting_publish"
  | .idle => "idle"
  | .backingOff => "backing_off"
  | .stopped => "stopped"
  | .failed => "failed"

def isTerminal : Phase → Bool
  | .stopped | .failed => true
  | _ => false

end Phase

/-- What a loop tells the world about itself. -/
structure Status where
  phase : Phase
  active : Option String
  pending : Option String
  completed : Nat
  failures : UInt32
  deriving DecidableEq, Repr

def Status.initial : Status := ⟨.bootstrapping, none, none, 0, 0⟩

inductive Trigger
  | bootstrap
  | scheduled
  | retry
  deriving DecidableEq, Repr

def Trigger.label : Trigger → String
  | .bootstrap => "bootstrap"
  | .scheduled => "scheduled"
  | .retry => "retry"

end Keyring.Rotation
