import Keyring.Number.Binary64

namespace Keyring

/-- Counts by label; a label is listed from its first count on. -/
abbrev Tally := List (String × Nat)

namespace Tally

def count (label : String) : Tally → Nat
  | [] => 0
  | (other, n) :: rest => if label = other then n else count label rest

def add (label : String) : Tally → Tally
  | [] => [(label, 1)]
  | (other, n) :: rest =>
      if label = other then (other, n + 1) :: rest else (other, n) :: add label rest

theorem count_add (label other : String) (t : Tally) :
    count other (add label t) = count other t + if other = label then 1 else 0 := by
  induction t with
  | nil => simp [add, count]
  | cons entry rest ih =>
      obtain ⟨name, n⟩ := entry
      by_cases hname : label = name
      · subst hname
        by_cases h : other = label <;> simp [add, count, h]
      · by_cases h : other = name
        · subst h
          simp [add, count, hname, Ne.symm hname]
        · simp [add, count, hname, h, ih]

end Tally

structure Metrics where
  attempts : Tally
  results : Tally
  cancelled : Tally
  fatal : Nat
  /-- Seconds of the wall clock. -/
  lastSuccess : Option Number.Binary64
  deriving DecidableEq, Repr

namespace Metrics

def none : Metrics := ⟨[], [], [], 0, .none⟩

def attempt (trigger : String) (m : Metrics) : Metrics :=
  { m with attempts := m.attempts.add trigger }

def result (status : String) (m : Metrics) : Metrics := { m with results := m.results.add status }

def cancel (reason : String) (m : Metrics) : Metrics :=
  { m with cancelled := m.cancelled.add reason }

def escalate (m : Metrics) : Metrics := { m with fatal := m.fatal + 1 }

def succeedAt (seconds : Int) (m : Metrics) : Metrics :=
  { m with lastSuccess := some (.ofInt seconds) }

def counters (m : Metrics) : List (String × Nat) :=
  let labelled (name label : String) (t : Tally) : List (String × Nat) :=
    t.map fun (value, n) => (name ++ "\x7b" ++ label ++ "=" ++ value ++ "\x7d", n)
  labelled "key_rotation_publish_attempts_total" "trigger" m.attempts ++
    labelled "key_rotation_publish_results_total" "status" m.results ++
    labelled "key_rotation_publish_cancelled_total" "reason" m.cancelled ++
    if m.fatal = 0 then [] else [("key_rotation_fatal_total", m.fatal)]

def lastSuccessName : String := "key_rotation_last_success_timestamp"

end Metrics

end Keyring
