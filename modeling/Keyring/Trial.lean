import Keyring.Rotation.Loop
import Keyring.Server

namespace Keyring

variable [Scheme]

/-- A source of keys and a key server for trials. -/
structure Trial (γ : Type) where
  generator : γ
  server : Server

namespace Trial

variable {γ : Type}

def crashText : String := "client panic"

/-- Hands a key to the server. The publications with the numbers in `crashing` fail to reach it:
whoever calls crashes. -/
def publish (crashing : List Nat) (key : Jwk) (signer : SigningKey) (submissions : Submissions)
    (t : Trial γ) : Reply × Trial γ :=
  if crashing.contains t.server.count then (.crashed crashText, t)
  else
    let (outcome, server) := t.server.publish key signer submissions
    (.accepted outcome, { t with server })

def world (draw : γ → Draw × γ) (crashing : List Nat) (escalate : PublishError → Escalation) :
    World (Trial γ) where
  draw t :=
    let (drawn, generator) := draw t.generator
    (drawn, { t with generator })
  publish := publish crashing
  escalate := escalate

end Trial

def Loop.complete {γ : Type} (i : Nat) (outcome : Outcome) (l : Loop (Trial γ)) :
    Bool × Loop (Trial γ) :=
  let (delivered, submissions, server) := l.world.server.complete i outcome l.submissions
  (delivered, { l with submissions, world := { l.world with server } })

end Keyring
