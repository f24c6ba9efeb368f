import Keyring.Duration

namespace Keyring

structure Settings where
  issuer : String
  endpoint : String
  /-- The period between rotations; none, or zero, for a single key. -/
  interval : Option Duration
  /-- Failed publications in a row, up to the one that is escalated. -/
  maxAttempts : UInt32
  deriving DecidableEq, Repr

namespace Settings

def defaultInterval : Duration := .ofSecs 43200

def defaultMaxAttempts : UInt32 := 1

def new (issuer endpoint : String) : Settings :=
  ⟨issuer, endpoint, some defaultInterval, defaultMaxAttempts⟩

def intervalOfSecs (secs : Int) : Option Duration :=
  if 0 < secs then some (.ofSecs secs.toNat) else none

def withInterval (d : Duration) (s : Settings) : Settings :=
  { s with interval := if d.isZero then none else some d }

def withIntervalSecs (secs : Int) (s : Settings) : Settings :=
  { s with interval := intervalOfSecs secs }

def withoutRotation (s : Settings) : Settings := { s with interval := none }

def withMaxAttempts (n : UInt32) (s : Settings) : Settings := { s with maxAttempts := max n 1 }

def rotationEnabled (s : Settings) : Bool := s.interval.any fun d => !d.isZero

end Settings

end Keyring
