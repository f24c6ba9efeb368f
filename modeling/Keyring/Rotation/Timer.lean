import Keyring.Duration

namespace Keyring.Rotation

/-- The delay before a failed publication is tried again, in milliseconds. -/
structure RetryDelay where
  millis : Nat
  millis_pos : 0 < millis
  deriving DecidableEq

namespace RetryDelay

def first : RetryDelay := ⟨1000, by decide⟩

def longest : Nat := 30000

def next (d : RetryDelay) : RetryDelay :=
  ⟨min (d.millis * 2) longest, by have := d.millis_pos; simp [longest]; omega⟩

def after (d : RetryDelay) (now : Instant) : Instant := now + (Duration.ofMillis d.millis).nanos

theorem lt_after (d : RetryDelay) (now : Instant) : now < d.after now := by
  exact Nat.lt_add_of_pos_right (Nat.mul_pos d.millis_pos (by decide))

end RetryDelay

structure Ticker where
  next : Instant
  period : Duration
  period_pos : 0 < period.nanos
  deriving DecidableEq

namespace Ticker

def bootReading : Duration := .ofSecs 1

def clockEnd : Duration := .ofSecs (Nat.pow 2 63)

def representable (t : Instant) : Bool := bootReading.nanos + t < clockEnd.nanos

/-- The ticker of a period that starts now; none for no period or a zero one, and none when its
first moment cannot be shown. -/
def start? (now : Instant) (period : Option Duration) : Option Ticker :=
  match period with
  | none => none
  | some d =>
      if h : 0 < d.nanos then
        if representable (now + d.nanos) then some ⟨now + d.nanos, d, h⟩ else none
      else none

/-- How late a tick may be for the next one to keep to the schedule. -/
def tolerance : Duration := .ofMillis 5

/-- Thirty years, beyond which the runtime does not plan a tick again. -/
def longestGap : Duration := .ofSecs 946080000

/-- The time from a tick to the next one: the period, unless it is too long. Only the first tick of
a ticker may take longer, as it is asked for by its moment: a ticker of a century ticks after a
century, and then every thirty years. -/
def gap (t : Ticker) : Nat := min t.period.nanos longestGap.nanos

theorem gap_pos (t : Ticker) : 0 < t.gap := Nat.lt_min.mpr ⟨t.period_pos, by decide⟩

/-- After a tick at `now`: one gap after the moment planned, or after the tick if it was too
late. -/
def advance (now : Instant) (t : Ticker) : Ticker :=
  let start := if t.next + tolerance.nanos < now then now else t.next
  { t with next := start + t.gap }

theorem next_lt_next_advance {t : Ticker} {now : Instant} (h : t.next ≤ now) :
    t.next < (t.advance now).next := by
  unfold advance
  refine Nat.lt_of_le_of_lt ?_ (Nat.lt_add_of_pos_right t.gap_pos)
  split
  · exact h
  · exact Nat.le_refl _

example : (start? 0 (some (.ofSecs 3153600000))).map (fun t => (t.advance t.next).next) =
    some (Duration.ofSecs (3153600000 + 946080000)).nanos := by
  decide

def lateness (now : Instant) (t : Ticker) : Nat := now + 1 - t.next

theorem sub_lt_sub_of_le {now first second : Nat} (h : first ≤ now) (hlt : first < second) :
    now + 1 - second < now + 1 - first := by
  omega

theorem lateness_advance_lt {t : Ticker} {now : Instant} (h : t.next ≤ now) :
    (t.advance now).lateness now < t.lateness now :=
  sub_lt_sub_of_le h (next_lt_next_advance h)

end Ticker

end Keyring.Rotation
