import Keyring.SigningKey

namespace Keyring

variable [Scheme]

/-- The key in use and the key that waits for its confirmation. -/
structure Slots where
  active : Option SigningKey
  pending : Option SigningKey

namespace Slots

def empty : Slots := ⟨none, none⟩

def activeId (s : Slots) : Option String := s.active.map (·.id)
def pendingId (s : Slots) : Option String := s.pending.map (·.id)

def propose (k : SigningKey) (s : Slots) : Slots := { s with pending := some k }

def withdraw (s : Slots) : Slots := { s with pending := none }

def promote (s : Slots) : Slots :=
  match s.pending with
  | some k => ⟨some k, none⟩
  | none => s

/-- The keys that a lock on them gives, whether it is poisoned or not. -/
def recover : Except Slots Slots → Slots
  | .ok s => s
  | .error s => s

end Slots

end Keyring
