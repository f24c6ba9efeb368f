namespace Keyring

inductive KeyError
  | noActiveKey
  | crypto (reason : String)
  | rotationStopped
  | task (reason : String)
  deriving DecidableEq, Repr

def KeyError.message : KeyError → String
  | .noActiveKey => "No key is yet active"
  | .crypto reason => "Cryptographic error: " ++ reason
  | .rotationStopped => "Key rotation has stopped"
  | .task reason => "Rotation task failed: " ++ reason

inductive PublishError
  | keyGeneration (reason : String)
  | rejected (reason : String)
  | unavailable (reason : String)
  | abandoned
  deriving DecidableEq, Repr

def PublishError.message : PublishError → String
  | .keyGeneration reason => "Unable to generate new key: " ++ reason
  | .rejected reason => "Key server rejected publication: " ++ reason
  | .unavailable reason => "Key server unavailable: " ++ reason
  | .abandoned => "Publish operation abandoned before completion"

abbrev Outcome := Except PublishError Unit

instance : DecidableEq Outcome := fun a b =>
  match a, b with
  | .ok (), .ok () => isTrue rfl
  | .error e, .error f => if h : e = f then isTrue (by rw [h]) else isFalse (by simp [h])
  | .ok _, .error _ => isFalse (by simp)
  | .error _, .ok _ => isFalse (by simp)

inductive SettingsError
  | missing (name : String)
  | invalid (name : String) (reason : String)
  deriving DecidableEq, Repr

def SettingsError.message : SettingsError → String
  | .missing name => "Missing required environment variable: " ++ name
  | .invalid name reason => "Invalid value for " ++ name ++ ": " ++ reason

end Keyring
