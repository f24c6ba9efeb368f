import Keyring.Error
import Keyring.Journal
import Keyring.Rotation.Status
import Keyring.Settings
import Keyring.Text.Quoted

namespace Keyring.Rotation.Notice

def notice (level : Level) (message : String) (fields : List (String × String)) : Event :=
  ⟨level, "key_rotation.rotation", message, fields⟩

def bootstrapping (s : Settings) : Event :=
  notice .info "Bootstrapping signing key" [("issuer", s.issuer), ("key_server", s.endpoint)]

def rotationDisabled : Event := notice .info "Key rotation is disabled" []

def intervalOutOfRange (period : Duration) : Event :=
  notice .warn "Rotation interval out of range, key rotation is disabled"
    [("interval_secs", toString period.wholeSecs)]

def stopping : Event := notice .info "Shutting down key publisher" []

def keys (active pending : Option String) : List (String × String) :=
  [("active_key", Text.quotedOption active), ("pending_key", Text.quotedOption pending)]

def rotating (active pending : Option String) : Event :=
  notice .debug "Generating new key" (keys active pending)

def retrying (attempt : UInt32) : Event :=
  notice .debug "Retrying key publication" [("attempt", toString attempt.toNat)]

def published (active pending : Option String) : Event :=
  notice .debug "Successfully published key" (keys active pending)

def willRetry (active pending : Option String) (e : PublishError) (attempt : UInt32)
    (delayMillis : Nat) : Event :=
  notice .warn "Error publishing key, will retry" (keys active pending ++
    [("error", e.message), ("attempt", toString attempt.toNat),
      ("backoff_ms", toString delayMillis)])

def gaveUp (active pending : Option String) (e : PublishError) (attempts : UInt32) : Event :=
  notice .error "Error publishing key" (keys active pending ++
    [("error", e.message), ("attempts", toString attempts.toNat)])

def terminating (e : PublishError) : Event :=
  notice .error "Unable to publish signing key, terminating process" [("error", e.message)]

def ended (phase : Phase) (completed : Nat) : Event :=
  notice .info "Key rotation loop exited"
    [("state", phase.label), ("completed_rotations", toString completed)]

end Keyring.Rotation.Notice
