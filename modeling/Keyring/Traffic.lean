import Keyring.Server

namespace Keyring

variable [Scheme]

/-- A key server and the submissions of those who publish to it, by their numbers. -/
structure Traffic where
  server : Server
  submissions : Submissions

namespace Traffic

inductive Act
  | publish (key : Jwk) (signer : SigningKey)
  | cancel (i : Nat)
  | poll (i : Nat)
  | drop (i : Nat)
  | complete (i : Nat) (outcome : Outcome)

def publish (key : Jwk) (signer : SigningKey) (t : Traffic) : Traffic :=
  let (outcome, server) := t.server.publish key signer t.submissions
  ⟨server, t.submissions ++ [.opened outcome]⟩

def complete (i : Nat) (outcome : Outcome) (t : Traffic) : Bool × Traffic :=
  let (delivered, submissions, server) := t.server.complete i outcome t.submissions
  (delivered, ⟨server, submissions⟩)

/-- The submission with the number `i`, unless whoever awaited its outcome went away. -/
def awaited? (i : Nat) (t : Traffic) : Option Submission := t.submissions[i]?.filter (·.held)

/-- Whoever went away can do nothing any more. -/
def update (i : Nat) (f : Submission → Submission) (t : Traffic) : Traffic :=
  { t with submissions := t.submissions.modify i fun s => if s.held then f s else s }

def step (t : Traffic) : Act → Traffic
  | .publish key signer => t.publish key signer
  | .cancel i => t.update i .cancel
  | .poll i => t.update i fun s => s.poll.2
  | .drop i => t.update i .release
  | .complete i outcome => (t.complete i outcome).2

def run (s : Server) (acts : List Act) : Traffic := acts.foldl step ⟨s, []⟩

end Traffic

end Keyring
