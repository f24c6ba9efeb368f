import Keyring.Attempt
import Keyring.Metrics
import Keyring.Rotation.Notice
import Keyring.Rotation.Timer

namespace Keyring

variable [Scheme]

namespace Rotation

inductive Ending
  | finished
  | crashed (text : String)
  | exited
  deriving DecidableEq, Repr

structure Plan (ω : Type) where
  settings : Settings
  world : World ω
  /-- The wall clock at the first moment, in seconds. -/
  startedAt : Int

structure Signals where
  stop : Bool
  tick : Bool
  backoff : Bool
  deriving DecidableEq, Repr

inductive Occurrence
  | stop
  | tick
  | retry
  | outcome (o : Outcome)
  deriving DecidableEq

end Rotation

open Rotation

/-- A rotation loop. It alone changes the keys, and it awaits one publication at most. -/
structure Loop (ω : Type) where
  slots : Slots
  /-- Whether an attempt crashed, which holds the lock on the keys. -/
  poisoned : Bool
  phase : Phase
  tracked : Tracked
  submissions : Submissions
  ticker : Option Ticker
  backoff : Option Instant
  delay : RetryDelay
  failures : UInt32
  completed : Nat
  /-- What was told to the world, the newest first. -/
  statuses : List Status
  log : Journal
  metrics : Metrics
  escalated : List PublishError
  world : ω
  ending : Option Ending

namespace Loop

variable {ω : Type}

def new (world : ω) : Loop ω where
  slots := .empty
  poisoned := false
  phase := .bootstrapping
  tracked := .inert
  submissions := []
  ticker := none
  backoff := none
  delay := .first
  failures := 0
  completed := 0
  statuses := []
  log := []
  metrics := .none
  escalated := []
  world := world
  ending := none

/-- Whether the loop has been served; the first thing it does is to tell its status. -/
def started (l : Loop ω) : Bool := !l.statuses.isEmpty

def hasEnded (l : Loop ω) : Bool := l.ending.isSome

/-- What the lock on the keys gives to whoever takes it: the keys, with an error if it is
poisoned. -/
def lock (l : Loop ω) : Except Slots Slots := if l.poisoned then .error l.slots else .ok l.slots

/-- The keys as they are read from outside. -/
def keys (l : Loop ω) : Slots := .recover l.lock

@[simp]
theorem keys_eq (l : Loop ω) : l.keys = l.slots := by
  unfold keys lock
  split <;> rfl

def status (l : Loop ω) : Status := l.statuses.headD .initial

def note (e : Event) (l : Loop ω) : Loop ω := { l with log := e :: l.log }

def meter (f : Metrics → Metrics) (l : Loop ω) : Loop ω := { l with metrics := f l.metrics }

def report (phase : Phase) (l : Loop ω) : Loop ω :=
  let status := ⟨phase, l.keys.activeId, l.keys.pendingId, l.completed, l.failures⟩
  { l with phase := phase, statuses := status :: l.statuses }

theorem report_eq (phase : Phase) (l : Loop ω) : l.report phase = { l with
    phase := phase
    statuses := ⟨phase, l.slots.activeId, l.slots.pendingId, l.completed, l.failures⟩ ::
      l.statuses } := by
  simp only [report, keys_eq]

def finish (phase : Phase) (l : Loop ω) : Loop ω :=
  { (l.report phase).note (Notice.ended phase l.completed) with ending := some .finished }

def outcome? (l : Loop ω) : Option Outcome :=
  match l.tracked with
  | .inert => none
  | .failed e => some (.error e)
  | .submitted n => l.submissions[n]?.bind Submission.outcome?

def settle (l : Loop ω) : Loop ω :=
  match l.tracked with
  | .submitted n =>
      { l with tracked := .inert, submissions := l.submissions.modify n fun s => s.poll.2.release }
  | _ => { l with tracked := .inert }

/-- Cancels the awaited publication, for this reason if one is awaited; nothing is awaited then. -/
def cancel (reason : String) (l : Loop ω) : Loop ω :=
  let l := if l.phase = .awaiting then l.meter (·.cancel reason) else l
  match l.tracked with
  | .submitted n =>
      { l with tracked := .inert, submissions := l.submissions.modify n Submission.cancel }
  | _ => { l with tracked := .inert }

def launch (w : World ω) (trigger : Trigger) (l : Loop ω) : Loop ω :=
  let a := Attempt.make w l.slots.active l.slots l.submissions l.world
  let l := { l.meter (·.attempt trigger.label) with
    slots := a.slots, submissions := a.submissions, world := a.world, log := a.events ++ l.log }
  match a.result with
  | .ok tracked => { l with tracked := tracked }.report .awaiting
  | .error text => { l with poisoned := true, ending := some (.crashed text) }

def schedule (now : Instant) (s : Settings) (l : Loop ω) : Loop ω :=
  match Ticker.start? now s.interval, s.interval with
  | some ticker, _ => { l with ticker := some ticker }
  | none, some period =>
      if period.isZero then l.note Notice.rotationDisabled
      else l.note (Notice.intervalOutOfRange period)
  | none, none => l.note Notice.rotationDisabled

def start (p : Plan ω) (now : Instant) (l : Loop ω) : Loop ω :=
  let l := (l.report .bootstrapping).note (Notice.bootstrapping p.settings)
  let l := l.launch p.world .bootstrap
  if l.hasEnded then l else l.schedule now p.settings

/-- What the loop reacts to when this is ready: a stop first, then a tick, then the end of a
backoff, and the outcome of a publication last. -/
def next? (s : Signals) (l : Loop ω) : Option Occurrence :=
  if l.hasEnded then none
  else if s.stop then some .stop
  else if s.tick && l.ticker.isSome then some .tick
  else if s.backoff && l.backoff.isSome then some .retry
  else l.outcome?.map .outcome

def halt (l : Loop ω) : Loop ω :=
  ((l.note Notice.stopping).cancel "shutdown").finish .stopped

def rotate (p : Plan ω) (now : Instant) (l : Loop ω) : Loop ω :=
  let l := { l with ticker := l.ticker.map (Ticker.advance now) }
  let l := (l.note (Notice.rotating l.slots.activeId l.slots.pendingId)).cancel "superseded"
  { l with backoff := none }.launch p.world .scheduled

def retry (p : Plan ω) (l : Loop ω) : Loop ω :=
  ({ l with backoff := none }.note (Notice.retrying (l.failures + 1))).launch p.world .retry

def confirm (p : Plan ω) (now : Instant) (l : Loop ω) : Loop ω :=
  let seconds := p.startedAt + (Duration.wholeSecs ⟨now⟩ : Nat)
  let l := { l with
    slots := l.slots.promote
    completed := l.completed + 1
    failures := 0
    delay := .first }.meter fun m => (m.result "success").succeedAt seconds
  (l.note (Notice.published l.slots.activeId l.slots.pendingId)).report .idle

def countFailure (n : UInt32) : UInt32 := if n = 0xFFFFFFFF then n else n + 1

def backOff (now : Instant) (e : PublishError) (l : Loop ω) : Loop ω :=
  let l := l.note
    (Notice.willRetry l.slots.activeId l.slots.pendingId e l.failures l.delay.millis)
  { l with backoff := some (l.delay.after now), delay := l.delay.next }.report .backingOff

/-- Hands the failure on; the loop ends if the program does not. -/
def escalate (w : World ω) (e : PublishError) (l : Loop ω) : Loop ω :=
  let l := l.note (Notice.gaveUp l.slots.activeId l.slots.pendingId e l.failures)
  let l := { l with escalated := e :: l.escalated }.meter (·.escalate)
  match w.escalate e with
  | .returns => l.finish .failed
  | .crashes text => { l with ending := some (.crashed text) }
  | .exits => { l.note (Notice.terminating e) with ending := some .exited }

def refuse (p : Plan ω) (now : Instant) (e : PublishError) (l : Loop ω) : Loop ω :=
  let l := { l with failures := countFailure l.failures }.meter (·.result "error")
  if l.failures < p.settings.maxAttempts then l.backOff now e else l.escalate p.world e

def react (p : Plan ω) (now : Instant) : Occurrence → Loop ω → Loop ω
  | .stop, l => l.halt
  | .tick, l => l.rotate p now
  | .retry, l => l.retry p
  | .outcome (.ok ()), l => l.settle.confirm p now
  | .outcome (.error e), l => l.settle.refuse p now e

end Loop

end Keyring
