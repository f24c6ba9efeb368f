import Keyring.Rotation.Loop

namespace Keyring.Loop

variable [Scheme] {ω : Type}

def signalsAt (stop : Bool) (now : Instant) (l : Loop ω) : Rotation.Signals where
  stop := stop
  tick := l.ticker.any fun t => decide (t.next ≤ now)
  backoff := l.backoff.any fun t => decide (t ≤ now)

def tickWork (now : Instant) (l : Loop ω) : Nat :=
  match l.ticker with
  | none => 0
  | some t => 4 * t.lateness now

def backoffWork (now : Instant) (l : Loop ω) : Nat :=
  match l.backoff with
  | none => 0
  | some t => if t ≤ now then 2 else 0

/-- A bound on what the loop can do at one moment. -/
def workload (now : Instant) (l : Loop ω) : Nat :=
  if l.hasEnded then 0
  else 1 + l.tickWork now + l.backoffWork now + if l.outcome?.isSome then 1 else 0

theorem workload_le (now : Instant) (l : Loop ω) :
    l.workload now ≤ 2 + l.tickWork now + l.backoffWork now := by
  unfold workload
  split
  · omega
  · split <;> omega

theorem workload_of_hasEnded {now : Instant} {l : Loop ω} (h : l.hasEnded = true) :
    l.workload now = 0 := by
  simp [workload, h]

theorem ticker_launch (w : World ω) (trigger : Rotation.Trigger) (l : Loop ω) :
    (l.launch w trigger).ticker = l.ticker := by
  unfold launch
  dsimp only
  split <;> rfl

theorem backoff_launch (w : World ω) (trigger : Rotation.Trigger) (l : Loop ω) :
    (l.launch w trigger).backoff = l.backoff := by
  unfold launch
  dsimp only
  split <;> rfl

theorem ticker_cancel (reason : String) (l : Loop ω) : (l.cancel reason).ticker = l.ticker := by
  unfold cancel
  by_cases h : l.phase = .awaiting <;> cases htracked : l.tracked <;>
    simp [h, htracked, meter]

theorem ticker_settle (l : Loop ω) : l.settle.ticker = l.ticker := by
  unfold settle
  split <;> rfl

theorem backoff_settle (l : Loop ω) : l.settle.backoff = l.backoff := by
  unfold settle
  split <;> rfl

theorem tracked_settle (l : Loop ω) : l.settle.tracked = .inert := by
  unfold settle
  split <;> rfl

theorem ticker_rotate (p : Rotation.Plan ω) (now : Instant) (l : Loop ω) :
    (l.rotate p now).ticker = l.ticker.map (Rotation.Ticker.advance now) := by
  unfold rotate
  dsimp only
  rw [ticker_launch]
  show (Loop.cancel _ _).ticker = _
  rw [ticker_cancel]
  rfl

theorem backoff_rotate (p : Rotation.Plan ω) (now : Instant) (l : Loop ω) :
    (l.rotate p now).backoff = none := by
  unfold rotate
  dsimp only
  rw [backoff_launch]

theorem ticker_retry (p : Rotation.Plan ω) (l : Loop ω) : (l.retry p).ticker = l.ticker := by
  unfold retry
  rw [ticker_launch]
  rfl

theorem backoff_retry (p : Rotation.Plan ω) (l : Loop ω) : (l.retry p).backoff = none := by
  unfold retry
  rw [backoff_launch]
  rfl

theorem hasEnded_eq_false_of_next? {s : Rotation.Signals} {l : Loop ω} {o : Rotation.Occurrence}
    (h : l.next? s = some o) : l.hasEnded = false := by
  cases hended : l.hasEnded with
  | false => rfl
  | true => simp [next?, hended] at h

theorem tick_of_next? {s : Rotation.Signals} {l : Loop ω} (h : l.next? s = some .tick) :
    s.tick = true := by
  unfold next? at h
  split at h
  · cases h
  split at h
  · cases h
  split at h
  · simp_all
  split at h
  · cases h
  · cases hout : l.outcome? <;> simp [hout] at h

theorem backoff_of_next? {s : Rotation.Signals} {l : Loop ω} (h : l.next? s = some .retry) :
    s.backoff = true := by
  unfold next? at h
  split at h
  · cases h
  split at h
  · cases h
  split at h
  · cases h
  split at h
  · simp_all
  · cases hout : l.outcome? <;> simp [hout] at h

theorem outcome?_of_next? {s : Rotation.Signals} {l : Loop ω} {o : Outcome}
    (h : l.next? s = some (.outcome o)) : l.outcome? = some o := by
  unfold next? at h
  split at h
  · cases h
  split at h
  · cases h
  split at h
  · cases h
  split at h
  · cases h
  · cases hout : l.outcome? <;> simp_all

theorem tickWork_congr {l k : Loop ω} (h : l.ticker = k.ticker) (now : Instant) :
    l.tickWork now = k.tickWork now := by
  unfold tickWork
  rw [h]

theorem backoffWork_congr {l k : Loop ω} (h : l.backoff = k.backoff) (now : Instant) :
    l.backoffWork now = k.backoffWork now := by
  unfold backoffWork
  rw [h]

theorem backoffWork_of_none {l : Loop ω} (h : l.backoff = none) (now : Instant) :
    l.backoffWork now = 0 := by
  unfold backoffWork
  rw [h]

theorem tickWork_rotate_lt (p : Rotation.Plan ω) {now : Instant} {l : Loop ω} {stop : Bool}
    (h : (l.signalsAt stop now).tick = true) :
    (l.rotate p now).tickWork now + 4 ≤ l.tickWork now := by
  unfold tickWork
  rw [ticker_rotate]
  simp only [signalsAt] at h
  cases hticker : l.ticker with
  | none => simp [hticker] at h
  | some t =>
      simp only [hticker, Option.any_some, decide_eq_true_eq] at h
      have hlate := Rotation.Ticker.lateness_advance_lt h
      simp only [Option.map_some]
      omega

theorem backoffWork_of_due {now : Instant} {l : Loop ω} {stop : Bool}
    (h : (l.signalsAt stop now).backoff = true) : l.backoffWork now = 2 := by
  unfold backoffWork
  simp only [signalsAt] at h
  cases hbackoff : l.backoff with
  | none => simp [hbackoff] at h
  | some t =>
      simp only [hbackoff, Option.any_some, decide_eq_true_eq] at h
      simp [h]

theorem workload_of_inert {now : Instant} {l : Loop ω} (h : l.tracked = .inert) :
    l.workload now ≤ 1 + l.tickWork now + l.backoffWork now := by
  unfold workload
  split
  · omega
  · simp [outcome?, h]

theorem workload_confirm_le (p : Rotation.Plan ω) (now : Instant) {l : Loop ω}
    (h : l.tracked = .inert) :
    (l.confirm p now).workload now ≤ 1 + l.tickWork now + l.backoffWork now :=
  workload_of_inert (l := l.confirm p now) h

theorem backoffWork_backOff (now : Instant) (e : PublishError) (l : Loop ω) :
    (l.backOff now e).backoffWork now = 0 :=
  if_neg (Nat.not_le_of_lt (Rotation.RetryDelay.lt_after l.delay now))

theorem hasEnded_escalate (w : World ω) (e : PublishError) (l : Loop ω) :
    (l.escalate w e).hasEnded = true := by
  unfold escalate
  dsimp only
  split <;> rfl

theorem workload_refuse_le (p : Rotation.Plan ω) (now : Instant) (e : PublishError) {l : Loop ω}
    (h : l.tracked = .inert) : (l.refuse p now e).workload now ≤ 1 + l.tickWork now := by
  unfold refuse
  dsimp only
  split
  · refine Nat.le_trans (workload_of_inert (l := backOff now e _) h) ?_
    rw [backoffWork_backOff]
    exact Nat.le_refl _
  · rw [workload_of_hasEnded (hasEnded_escalate _ _ _)]
    omega

/-- Whatever the loop does at a moment leaves less to do at that moment. -/
theorem workload_react_lt {p : Rotation.Plan ω} {stop : Bool} {now : Instant} {l : Loop ω}
    {o : Rotation.Occurrence} (h : l.next? (l.signalsAt stop now) = some o) :
    (l.react p now o).workload now < l.workload now := by
  have hbound : l.workload now = 1 + l.tickWork now + l.backoffWork now +
      if l.outcome?.isSome then 1 else 0 := by
    simp [workload, hasEnded_eq_false_of_next? h]
  rw [hbound]
  cases o with
  | stop =>
      rw [workload_of_hasEnded (l := l.react p now .stop) rfl]
      omega
  | tick =>
      have htick := tickWork_rotate_lt p (tick_of_next? h)
      have hbackoff := backoffWork_of_none (backoff_rotate p now l) now
      have hle := workload_le now (l.rotate p now)
      simp only [react]
      omega
  | retry =>
      have htick := tickWork_congr (ticker_retry p l) now
      have hbackoff := backoffWork_of_none (backoff_retry p l) now
      have hdue := backoffWork_of_due (backoff_of_next? h)
      have hle := workload_le now (l.retry p)
      simp only [react]
      omega
  | outcome o =>
      have hout : l.outcome?.isSome = true := by simp [outcome?_of_next? h]
      have htick := tickWork_congr (ticker_settle l) now
      have hbackoff := backoffWork_congr (backoff_settle l) now
      rw [if_pos hout]
      cases o with
      | ok _ =>
          have hle := workload_confirm_le p now (tracked_settle l)
          simp only [react]
          omega
      | error e =>
          have hle := workload_refuse_le p now e (tracked_settle l)
          simp only [react]
          omega

def drain (p : Rotation.Plan ω) (stop : Bool) (now : Instant) (l : Loop ω) : Loop ω :=
  match _h : l.next? (l.signalsAt stop now) with
  | none => l
  | some o => drain p stop now (l.react p now o)
termination_by l.workload now
decreasing_by exact workload_react_lt _h

def serve (p : Rotation.Plan ω) (stop : Bool) (now : Instant) (l : Loop ω) : Loop ω :=
  if l.started then l.drain p stop now else (l.start p now).drain p stop now

def deadline? (l : Loop ω) : Option Instant :=
  if l.hasEnded then none else (l.ticker.map (·.next)).merge min l.backoff

end Keyring.Loop

namespace Keyring.Rotation

/-- Timers end on whole milliseconds: the first one that is not before the moment. -/
def wholeMillis (t : Instant) : Nat := (t + 999999) / 1000000

structure Clocked [Scheme] (ω : Type) where
  now : Nat
  loop : Loop ω

namespace Clocked

variable [Scheme] {ω : Type}

def instant (c : Clocked ω) : Instant := (Duration.ofMillis c.now).nanos

def serve (p : Plan ω) (stop : Bool) (c : Clocked ω) : Clocked ω :=
  { c with loop := c.loop.serve p stop c.instant }

/-- Serves the loop now and whenever a timer ends before the clock shows `last`, until `done`
holds. If it never does, the clock ends at `last`. Nothing happens when no time is to pass. -/
def advance (p : Plan ω) (stop : Bool) (done : Loop ω → Bool) (last : Nat) (c : Clocked ω) :
    Clocked ω :=
  if c.now < last then
    let served := c.serve p stop
    if done served.loop then served
    else
      match served.loop.deadline?.map wholeMillis with
      | none => { served with now := last }
      | some wake =>
          if _h : c.now < wake ∧ wake < last then
            advance p stop done last { served with now := wake }
          else { served with now := last }
  else c
termination_by last - c.now

/-- Lets time pass; what is due at the very end waits for the next serving. -/
def sleep (p : Plan ω) (stop : Bool) (millis : Nat) (c : Clocked ω) : Clocked ω :=
  c.advance p stop (fun _ => false) (c.now + millis)

def jump (p : Plan ω) (stop : Bool) (millis : Nat) (c : Clocked ω) : Clocked ω :=
  { c.serve p stop with now := c.now + millis }

/-- Lets time pass until something holds. Whether it holds at the end tells if it came in time. -/
def await (p : Plan ω) (stop : Bool) (done : Loop ω → Bool) (millis : Nat) (c : Clocked ω) :
    Clocked ω :=
  if done c.loop then c else c.advance p stop done (c.now + millis)

end Clocked

end Keyring.Rotation
