import Keyring.Error
import Keyring.Settings
import Keyring.Text.Blank
import Keyring.Text.Decimal

namespace Keyring.Settings

abbrev Environment := String → Option String

def issuerName : String := "KEY_ROTATION_ISSUER"
def endpointName : String := "KEY_SERVER_ENDPOINT"
def intervalName : String := "KEY_ROTATION_INTERVAL_SECS"
def maxAttemptsName : String := "KEY_PUBLISH_MAX_ATTEMPTS"

def longestInterval : Int := 31536000

def require (env : Environment) (name : String) : Except SettingsError String :=
  match env name with
  | some value => .ok value
  | none => .error (.missing name)

def readVariable {α : Type} (name : String) (read : List Char → Except Text.Decimal.Fault α)
    (value : String) : Except SettingsError α :=
  match read (Text.trim value) with
  | .ok n => .ok n
  | .error fault => .error (.invalid name fault.message)

/-- The interval in seconds, a 64-bit number of at most one year; twelve hours if not set. -/
def readInterval (env : Environment) : Except SettingsError (Option Duration) :=
  match env intervalName with
  | none => .ok (some defaultInterval)
  | some value => do
      let secs ← readVariable intervalName (Text.Decimal.readInt (Nat.pow 2 63 - 1)) value
      if longestInterval < secs then
        .error (.invalid intervalName s!"must be at most {longestInterval} seconds")
      else return intervalOfSecs secs

def readMaxAttempts (env : Environment) : Except SettingsError UInt32 :=
  match env maxAttemptsName with
  | none => .ok defaultMaxAttempts
  | some value => do
      let n ← readVariable maxAttemptsName (Text.Decimal.readNat (Nat.pow 2 32 - 1)) value
      if n = 0 then .error (.invalid maxAttemptsName "must be at least 1")
      else return UInt32.ofNat n

/-- Reads the variables in the order issuer, endpoint, interval, attempts. -/
def ofEnvironment (env : Environment) : Except SettingsError Settings := do
  let issuer ← require env issuerName
  let endpoint ← require env endpointName
  let interval ← readInterval env
  let maxAttempts ← readMaxAttempts env
  return ⟨issuer, endpoint, interval, maxAttempts⟩

end Keyring.Settings
