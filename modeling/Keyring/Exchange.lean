import Keyring.Submission

namespace Keyring

/-- What the side that awaits an outcome and the side that reports it can do. -/
inductive Move
  | cancel
  | askCancelled
  | poll
  | await
  | resume
  | giveUp
  | release
  | complete (outcome : Outcome)
  | abandon
  | seeCancelled
  deriving DecidableEq

inductive Answer
  | done
  | flag (b : Bool)
  | outcome (o : Outcome)
  | pending
  | gone
  deriving DecidableEq

inductive Call
  /-- It waits for the outcome or the cancellation, whichever comes first. -/
  | waiting
  /-- It saw that there is nothing to wait for, and never returns. -/
  | stuck
  deriving DecidableEq

structure Exchange where
  submission : Submission
  call : Option Call
  deriving DecidableEq

namespace Exchange

def of (s : Submission) : Exchange := ⟨s, none⟩

def new : Exchange := of .new

def ask (call : Call) (x : Exchange) : Answer × Exchange :=
  match call, x.submission.poll with
  | .waiting, (some o, s) => (.outcome o, ⟨s, none⟩)
  | .waiting, (none, s) =>
      (.pending, ⟨s, some (if s.cancelled || !s.awaitsReport then .stuck else .waiting)⟩)
  | .stuck, _ => (.pending, { x with call := some .stuck })

def dismiss (x : Exchange) : Exchange := { x with call := none }

def byAwaiting (x : Exchange) (result : Answer × Exchange) : Answer × Exchange :=
  if x.submission.held then result else (.gone, x)

def byReporting (x : Exchange) (result : Answer × Exchange) : Answer × Exchange :=
  if x.submission.awaitsReport then result else (.gone, x)

/-- Makes a move. Whoever starts a new call or goes away gives up the call that was kept. -/
def step (x : Exchange) : Move → Answer × Exchange
  | .cancel => x.byAwaiting (.done, { x with submission := x.submission.cancel })
  | .askCancelled => x.byAwaiting (.flag x.submission.cancelled, x)
  | .poll => x.byAwaiting ((x.ask .waiting).1, (x.ask .waiting).2.dismiss)
  | .await => x.byAwaiting (x.ask .waiting)
  | .resume =>
      match x.call with
      | some call => x.ask call
      | none => (.gone, x)
  | .giveUp => x.byAwaiting (.done, x.dismiss)
  | .release => x.byAwaiting (.done, ⟨x.submission.release, none⟩)
  | .complete outcome =>
      let (accepted, s) := x.submission.complete outcome
      x.byReporting (.flag accepted, { x with submission := s })
  | .abandon => x.byReporting (.done, { x with submission := x.submission.abandon })
  | .seeCancelled => x.byReporting (.flag x.submission.cancelled, x)

def answer (x : Exchange) (m : Move) : Answer := (x.step m).1

def run (x : Exchange) (moves : List Move) : Exchange := moves.foldl (fun x m => (x.step m).2) x

def answers (x : Exchange) : List Move → List Answer
  | [] => []
  | m :: moves => x.answer m :: (x.step m).2.answers moves

end Exchange

end Keyring
