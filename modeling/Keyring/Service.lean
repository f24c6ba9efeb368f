import Keyring.Rotation.Clock
import Keyring.Rotation.Ownership
import Keyring.Rotation.View
import Keyring.Trial

namespace Keyring

open Rotation

variable [Scheme]

/-- A rotation loop in a trial, with its owner, its clock and those who watch it. -/
structure Service where
  plan : Plan (Trial Generator)
  escalation : Escalation
  clock : Clocked (Trial Generator)
  ownership : Ownership
  /-- Whether a token that stops the loop was cancelled, if there is such a token. -/
  token : Option Bool
  seen : Nat
  read : Nat

namespace Service

/-- A service whose loop has yet to be served. The publications with the numbers in `crashing`
crash. -/
def spawn (settings : Settings) (trial : Trial Generator) (crashing : List Nat)
    (escalation : Escalation) (token : Option Bool) : Service where
  plan := ⟨settings, Trial.world Generator.draw crashing fun _ => escalation, 0⟩
  escalation
  clock := ⟨0, .new trial⟩
  ownership := .new
  token
  seen := 0
  read := 0

def loop (s : Service) : Loop (Trial Generator) := s.clock.loop

def server (s : Service) : Server := s.loop.world.server

def stopping (s : Service) : Bool := s.ownership.stopped || s.token == some true

def escalated (s : Service) : List PublishError :=
  match s.escalation with
  | .returns => s.loop.escalated.reverse
  | _ => []

def settle (s : Service) : Service := { s with clock := s.clock.serve s.plan s.stopping }

def sleep (millis : Nat) (s : Service) : Service :=
  { s with clock := s.clock.sleep s.plan s.stopping millis }

def jump (millis : Nat) (s : Service) : Service :=
  { s with clock := s.clock.jump s.plan s.stopping millis }

def await (done : Service → Bool) (millis : Nat) (s : Service) : Service :=
  let done loop := done { s with clock := { s.clock with loop } }
  { s with clock := s.clock.await s.plan s.stopping done millis }

def awaitKey (millis : Nat) (s : Service) : Option (Except KeyError SigningKey) × Service :=
  let s := s.await (·.loop.firstKey?.isSome) millis
  (s.loop.firstKey?, s)

def awaitPublications (count millis : Nat) (s : Service) : Bool × Service :=
  let done (s : Service) := decide (count ≤ s.server.published)
  let s := s.await done millis
  (done s, s)

def awaitEscalation (millis : Nat) (s : Service) : Bool × Service :=
  let done (s : Service) := !s.escalated.isEmpty
  let s := s.await done millis
  (done s, s)

inductive Joined
  | gone
  | late
  | ended (result : Except KeyError Unit)

def owned (s : Service) : Bool := s.ownership.handle = .owned

def withHandle (f : Ownership → Ownership) (s : Service) : Bool × Service :=
  (s.owned, { s with ownership := f s.ownership })

def poll (s : Service) : Service := { s with ownership := s.ownership.poll s.loop.hasEnded }

def conclude (task : String) (s : Service) : Joined × Service :=
  match s.loop.result? task with
  | some result => (.ended result, s.poll)
  | none => (.late, { s with ownership := s.ownership.giveUp })

def join (task : String) (millis : Nat) (s : Service) : Joined × Service :=
  if s.owned then
    let s := { s with ownership := s.ownership.join }.poll
    (s.await (·.loop.hasEnded) millis).conclude task
  else (.gone, s)

def shutdown (task : String) (s : Service) : Joined × Service :=
  if s.owned then { s with ownership := s.ownership.shutdown }.poll.settle.conclude task
  else (.gone, s)

def cancelToken (s : Service) : Service := { s with token := s.token.map fun _ => true }

/-- Whether a status was told since the watcher last looked; nothing once the loop has ended. -/
def changed? (s : Service) : Option Bool × Service :=
  let told := s.loop.statuses.length
  (if s.loop.hasEnded then none else some (told != s.seen), { s with seen := told })

def readEvents (s : Service) : List Event × Service :=
  let events := s.loop.log
  ((events.take (events.length - s.read)).reverse, { s with read := events.length })

def complete (i : Nat) (outcome : Outcome) (s : Service) : Bool × Service :=
  let (delivered, loop) := s.loop.complete i outcome
  (delivered, { s with clock := { s.clock with loop } })

end Service

end Keyring
