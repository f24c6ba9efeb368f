import Keyring.Generator
import Keyring.Journal
import Keyring.Slots
import Keyring.Submission
import Keyring.Text.Quoted

namespace Keyring

variable [Scheme]

inductive Reply
  | accepted (outcome : Option Outcome)
  | crashed (text : String)

inductive Escalation
  | returns
  | crashes (text : String)
  | exits

/-- What a rotation loop relies on: a source of keys, a key server that sees all submissions so
far, and someone to escalate to. -/
structure World (ω : Type) where
  draw : ω → Draw × ω
  publish : Jwk → SigningKey → Submissions → ω → Reply × ω
  escalate : PublishError → Escalation

inductive Tracked
  | inert
  | failed (e : PublishError)
  | submitted (number : Nat)
  deriving DecidableEq

structure Attempt (ω : Type) where
  slots : Slots
  submissions : Submissions
  world : ω
  result : Except String Tracked
  events : Journal

namespace Attempt

def submitted (pending signer : SigningKey) (selfSigned : Bool) : Event where
  level := .debug
  target := "key_rotation.manager"
  message := "Submitting key for publication"
  fields := [("pending_key", pending.id), ("signer_key", signer.id),
    ("self_signed", toString selfSigned)]

/-- Makes a key and submits it, vouched for by `signer` or else by itself. The new key waits in
place of any other; if none could be made, none waits and the failure is the outcome. -/
def make {ω : Type} (w : World ω) (signer : Option SigningKey) (slots : Slots)
    (submissions : Submissions) (world : ω) : Attempt ω :=
  match w.draw world with
  | (.crashed text, world) => ⟨slots, submissions, world, .error text, []⟩
  | (.failed e, world) =>
      ⟨slots.withdraw, submissions, world, .ok (.failed (.keyGeneration e.message)), []⟩
  | (.key k, world) =>
      let slots := slots.propose k
      let events := [submitted k (signer.getD k) signer.isNone]
      match w.publish k.jwk (signer.getD k) submissions world with
      | (.crashed text, world) => ⟨slots, submissions, world, .error text, events⟩
      | (.accepted outcome, world) =>
          ⟨slots, submissions ++ [.opened outcome], world, .ok (.submitted submissions.length),
            events⟩

end Attempt

end Keyring
