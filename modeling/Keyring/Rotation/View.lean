import Keyring.Rotation.Loop

namespace Keyring.Loop

variable [Scheme] {ω : Type}

def activeKey (l : Loop ω) : Except KeyError SigningKey :=
  match l.keys.active with
  | some k => .ok k
  | none => .error .noActiveKey

theorem activeKey_eq_ok_iff {l : Loop ω} {k : SigningKey} :
    l.activeKey = .ok k ↔ l.slots.active = some k := by
  rw [activeKey, keys_eq]
  cases l.slots.active <;> simp

theorem activeKey_eq_error_iff {l : Loop ω} :
    l.activeKey = .error .noActiveKey ↔ l.slots.active = none := by
  rw [activeKey, keys_eq]
  cases l.slots.active <;> simp

def pendingKeyId (l : Loop ω) : Option String := l.keys.pendingId

/-- What someone who waits for a first key is told; nothing as long as there is reason to wait.
The wait ends with the first status that names a key, or with the loop. -/
def firstKey? (l : Loop ω) : Option (Except KeyError SigningKey) :=
  if l.status.active.isSome then some l.activeKey
  else if l.hasEnded then some (.error .rotationStopped)
  else none

def result? (task : String) (l : Loop ω) : Option (Except KeyError Unit) :=
  match l.ending with
  | none | some .exited => none
  | some .finished => some (.ok ())
  | some (.crashed text) =>
      some (.error (.task ("task " ++ task ++ " panicked with message " ++ Text.quoted text)))

def describe (l : Loop ω) : String :=
  "KeyLifecycleManager \x7b active_key: " ++ Text.quotedOption l.keys.activeId ++
    ", pending_key: " ++ Text.quotedOption l.keys.pendingId ++ " \x7d"

end Keyring.Loop
