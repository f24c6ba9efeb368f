import Keyring.Error

namespace Keyring

inductive Report
  | waiting
  | ready (outcome : Outcome)
  /-- The answer has been taken, or there never will be one. -/
  | spent
  deriving DecidableEq

/-- A publication in flight, seen from both sides: the one that awaits its outcome and may cancel
it, and the one that reports the outcome. -/
structure Submission where
  cancelled : Bool
  held : Bool
  report : Report
  deriving DecidableEq

namespace Submission

def new : Submission := ⟨false, true, .waiting⟩

def cancel (s : Submission) : Submission := { s with cancelled := true }

def release (s : Submission) : Submission := { s with held := false }

def accepts (s : Submission) : Bool := s.report == .waiting && !s.cancelled && s.held

def complete (outcome : Outcome) (s : Submission) : Bool × Submission :=
  if s.accepts then (true, { s with report := .ready outcome })
  else (false, { s with report := if s.report = .waiting then .spent else s.report })

def abandon (s : Submission) : Submission := (s.complete (.error .abandoned)).2

/-- The outcome to be taken: none before it is reported, after a cancellation, or once taken. -/
def outcome? (s : Submission) : Option Outcome :=
  match s.cancelled, s.report with
  | false, .ready outcome => some outcome
  | _, _ => none

def poll (s : Submission) : Option Outcome × Submission :=
  match s.outcome? with
  | some outcome => (some outcome, { s with report := .spent })
  | none => (none, s)

def awaitsReport (s : Submission) : Bool := s.report = .waiting

def opened : Option Outcome → Submission
  | none => new
  | some outcome => (new.complete outcome).2

def failed (e : PublishError) : Submission := opened (some (.error e))

def inert : Submission := ⟨false, true, .spent⟩

end Submission

abbrev Submissions := List Submission

end Keyring
