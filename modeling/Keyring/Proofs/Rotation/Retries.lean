import Keyring.Proofs.Rotation.Backoff
import Keyring.Proofs.Rotation.Unscheduled
import Keyring.Proofs.Trial.Enactment

namespace Keyring

open Rotation

namespace Rotation.RetryDelay

/-- How long the loop has waited, in milliseconds, when it makes this retry: the sum of the delays
that are due after the failures before it. -/
def waited : Nat → Nat
  | 0 => 0
  | retry + 1 => waited retry + millisAfter retry

theorem waited_lt_succ (retry : Nat) : waited retry < waited (retry + 1) :=
  Nat.lt_add_of_pos_right (millisAfter_pos retry)

/-- Before a retry, the loop waits for that one or for one before it. -/
theorem exists_waited {retry millis : Nat} (h : millis < waited retry) :
    ∃ j < retry, waited j ≤ millis ∧ millis < waited (j + 1) := by
  induction retry with
  | zero => exact absurd h (Nat.not_lt_zero millis)
  | succ retry ih =>
      by_cases hearlier : millis < waited retry
      · obtain ⟨j, hj, hwaited⟩ := ih hearlier
        exact ⟨j, Nat.lt_succ_of_lt hj, hwaited⟩
      · exact ⟨retry, Nat.lt_succ_self retry, Nat.le_of_not_lt hearlier, h⟩

end Rotation.RetryDelay

namespace Rotation

def momentOf (millis : Nat) : Instant := (Duration.ofMillis millis).nanos

theorem momentOf_add (millis more : Nat) :
    momentOf (millis + more) = momentOf millis + momentOf more :=
  Nat.add_mul millis more 1000000

theorem momentOf_lt {millis later : Nat} (h : millis < later) : momentOf millis < momentOf later :=
  Nat.mul_lt_mul_of_pos_right h (by decide)

theorem wholeMillis_momentOf (millis : Nat) : wholeMillis (momentOf millis) = millis := by
  simp only [wholeMillis, momentOf, Duration.ofMillis]
  omega

end Rotation

section

variable [Scheme] {ω : Type}

namespace Loop

variable {p : Plan ω} {l l' : Loop ω} {now : Instant}

theorem drain_of_next?_eq_none (h : l.next? (l.signalsAt false now) = none) :
    l.drain p false now = l := by
  rw [drain]
  split
  · rfl
  · rename_i o ho
    cases h.symm.trans ho

theorem drain_of_next? {o : Occurrence} (h : l.next? (l.signalsAt false now) = some o) :
    l.drain p false now = (l.react p now o).drain p false now := by
  rw [drain]
  split
  · rename_i hnone
    cases h.symm.trans hnone
  · rename_i o' ho'
    obtain rfl := Option.some.inj (h.symm.trans ho')
    rfl

theorem next?_of_outcome? {o : Outcome} (hending : l.ending = none) (hticker : l.ticker = none)
    (hbackoff : l.backoff = none) (hout : l.outcome? = some o) :
    l.next? (l.signalsAt false now) = some (.outcome o) := by
  simp [next?, hasEnded, signalsAt, hending, hticker, hbackoff, hout]

theorem next?_of_backoff {deadline : Instant} (hending : l.ending = none)
    (hticker : l.ticker = none) (hbackoff : l.backoff = some deadline) (hdue : deadline ≤ now) :
    l.next? (l.signalsAt false now) = some .retry := by
  simp [next?, hasEnded, signalsAt, hending, hticker, hbackoff, hdue]

theorem next?_of_inert (hticker : l.ticker = none) (htracked : l.tracked = .inert)
    (hbackoff : ∀ deadline, l.backoff = some deadline → now < deadline) :
    l.next? (l.signalsAt false now) = none := by
  cases hdeadline : l.backoff with
  | none => simp [next?, signalsAt, hticker, hdeadline, outcome?, htracked]
  | some deadline =>
      have hlater := Nat.not_le_of_lt (hbackoff deadline hdeadline)
      simp [next?, signalsAt, hticker, hdeadline, outcome?, htracked, hlater]

/-- A loop that has no key yet, after so many attempts and so many failures. -/
structure Striving (after : Nat → ω → Prop) (attempts failed : Nat) (l : Loop ω) : Prop where
  started : l.started = true
  ending : l.ending = none
  ticker : l.ticker = none
  active : l.slots.active = none
  completed : l.completed = 0
  escalated : l.escalated = []
  attempted : l.metrics.attempted = attempts
  world : after attempts l.world
  failures : l.failures.toNat = failed
  delay : l.delay.millis = RetryDelay.millisAfter failed

/-- A loop whose latest attempt has come to its outcome. -/
structure Awaiting (fates : Nat → Fate) (after : Nat → ω → Prop) (j : Nat) (l : Loop ω) : Prop
    extends Striving after (j + 1) j l where
  backoff : l.backoff = none
  outcome : l.outcome? = some (fates j).outcome
  pending : l.slots.pending = (fates j).key?

/-- A loop that waits to try again after this attempt. -/
structure Pausing (after : Nat → ω → Prop) (j : Nat) (deadline : Instant) (l : Loop ω) : Prop
    extends Striving after (j + 1) (j + 1) l where
  phase : l.phase = .backingOff
  backoff : l.backoff = some deadline
  tracked : l.tracked = .inert

/-- After so many milliseconds, the loop waits for this retry or for one before it. -/
def WaitsBefore (after : Nat → ω → Prop) (start retry millis : Nat) (l : Loop ω) : Prop :=
  ∃ j < retry, RetryDelay.waited j ≤ millis ∧ millis < RetryDelay.waited (j + 1) ∧
    l.Pausing after j (momentOf (start + RetryDelay.waited (j + 1)))

/-- After so many attempts this key has come into use, and nothing is left to be done. -/
structure Succeeded (after : Nat → ω → Prop) (attempts : Nat) (k : SigningKey) (l : Loop ω) : Prop
    extends Resting l where
  slots : l.slots = ⟨some k, none⟩
  completed : l.completed = 1
  failures : l.failures = 0
  escalated : l.escalated = []
  attempted : l.metrics.attempted = attempts
  world : after attempts l.world

/-- After so many attempts the last error was handed on, and the loop is over. -/
structure GaveUp (p : Plan ω) (after : Nat → ω → Prop) (attempts : Nat) (e : PublishError)
    (l : Loop ω) : Prop where
  started : l.started = true
  escalated : l.escalated = [e]
  ended : l.hasEnded = true
  returned : p.world.escalate e = .returns → l.phase = .failed ∧ l.ending = some .finished
  active : l.slots.active = none
  completed : l.completed = 0
  attempted : l.metrics.attempted = attempts
  world : after attempts l.world

variable {fates : Nat → Fate} {after : Nat → ω → Prop} {j : Nat} {world : ω}

theorem Launch.awaiting {trigger : Trigger} {bid : Bid} (h : Launch p.world trigger l bid l')
    (hplays : p.world.Plays fates after) (hl : Striving after j j l) (hbackoff : l.backoff = none) :
    Awaiting fates after j l' := by
  have hattempted := (l.metrics.attempted_attempt trigger).trans (congrArg (· + 1) hl.attempted)
  cases hfate : fates j with
  | keyless e =>
      obtain ⟨world, hworld, hafter⟩ := hplays.keyless hl.world hfate
      cases h with
      | undrawn hdraw => cases hworld.symm.trans hdraw
      | failed hdraw =>
          cases hworld.symm.trans hdraw
          exact ⟨⟨rfl, hl.ending, hl.ticker, hl.active, hl.completed, hl.escalated, hattempted,
            hafter, hl.failures, hl.delay⟩, hbackoff, by rw [hfate]; rfl, by rw [hfate]; rfl⟩
      | crashed hdraw hpublish => cases hworld.symm.trans hdraw
      | accepted hdraw hpublish => cases hworld.symm.trans hdraw
  | submitted k o =>
      obtain ⟨between, hworld, haccepted⟩ := hplays.submitted hl.world hfate
      obtain ⟨world, hreply, hafter⟩ := haccepted (l.slots.active.getD k) l.submissions
      cases h with
      | undrawn hdraw => cases hworld.symm.trans hdraw
      | failed hdraw => cases hworld.symm.trans hdraw
      | crashed hdraw hpublish =>
          cases hworld.symm.trans hdraw
          cases hreply.symm.trans hpublish
      | accepted hdraw hpublish =>
          cases hworld.symm.trans hdraw
          cases hreply.symm.trans hpublish
          refine ⟨⟨rfl, hl.ending, hl.ticker, hl.active, hl.completed, hl.escalated, hattempted,
            hafter, hl.failures, hl.delay⟩, hbackoff, ?_, by rw [hfate]; rfl⟩
          rw [hfate]
          simp only [outcome?, report, List.getElem?_concat_length]
          rfl

theorem Awaiting.drain (h : Awaiting fates after j l) :
    l.drain p false now = (l.react p now (.outcome (fates j).outcome)).drain p false now :=
  drain_of_next? (next?_of_outcome? h.ending h.ticker h.backoff h.outcome)

theorem Resting.drain (h : l.Resting) : l.drain p false now = l := by
  apply drain_of_next?_eq_none
  apply next?_of_inert h.ticker h.tracked
  intro deadline hdeadline
  cases h.backoff.symm.trans hdeadline

theorem Awaiting.succeeded (h : Awaiting fates after j l) {k : SigningKey}
    (hfate : fates j = .submitted k (.ok ())) :
    Succeeded after (j + 1) k (l.drain p false now) := by
  have hslots : l.slots.promote = ⟨some k, none⟩ := by rw [Slots.promote, h.pending, hfate]; rfl
  have hsucceeded : Succeeded after (j + 1) k (l.observing.confirm p now) :=
    ⟨⟨rfl, rfl, rfl, h.backoff, h.ending, h.ticker⟩, hslots, congrArg (· + 1) h.completed, rfl,
      h.escalated, h.attempted, h.world⟩
  rw [h.drain, hfate]
  simp only [Fate.outcome, react, settle_eq_observing]
  rw [hsucceeded.toResting.drain]
  exact hsucceeded

theorem Refusal.attempted {e : PublishError} (h : Refusal p now e l l') :
    l'.metrics.attempted = l.metrics.attempted ∧ l'.world = l.world := by
  cases h <;> exact ⟨rfl, rfl⟩

theorem Awaiting.fits (h : Awaiting fates after j l) (hj : j < p.limit) :
    l.failures.toNat + 1 < UInt32.size := by
  rw [h.failures]
  exact Nat.lt_of_le_of_lt hj p.limit_lt

theorem Awaiting.drain_error (p : Plan ω) (now : Instant) (h : Awaiting fates after j l)
    {e : PublishError} (he : (fates j).outcome = .error e) :
    ∃ refused, Refusal p now e l.observing refused ∧
      l.drain p false now = refused.drain p false now := by
  refine ⟨_, refuse_spec p now e l.observing, ?_⟩
  rw [h.drain, he, react, settle_eq_observing]

theorem Pausing.drain_of_lt {deadline : Instant} (h : Pausing after j deadline l)
    (hnow : now < deadline) : l.drain p false now = l := by
  apply drain_of_next?_eq_none
  apply next?_of_inert h.ticker h.tracked
  intro d hd
  rw [h.backoff] at hd
  exact Option.some.inj hd ▸ hnow

theorem Pausing.deadline?_eq {deadline : Instant} (h : Pausing after j deadline l) :
    l.deadline? = some deadline := by
  simp [deadline?, hasEnded, h.ending, h.ticker, h.backoff]

theorem Awaiting.pausing (h : Awaiting fates after j l) (hfails : (fates j).Fails)
    (hj : j + 1 < p.limit) :
    Pausing after j (now + momentOf (RetryDelay.millisAfter j))
      (l.drain p false now) := by
  obtain ⟨e, he⟩ := hfails
  obtain ⟨refused, hrefusal, hdrain⟩ := h.drain_error p now he
  have hfits := h.fits (Nat.lt_of_succ_lt hj)
  have hlt : countFailure l.failures < p.settings.maxAttempts := by
    rw [countFailure_lt_iff p hfits, h.failures]
    exact hj
  have hcount : (countFailure l.failures).toNat = j + 1 := by
    rw [toNat_countFailure hfits, h.failures]
  have hpausing : Pausing after j (now + momentOf (RetryDelay.millisAfter j))
      refused := by
    rw [← h.delay]
    cases hrefusal with
    | backedOff _ =>
        exact ⟨⟨rfl, h.ending, h.ticker, h.active, h.completed, h.escalated, h.attempted, h.world,
          hcount, RetryDelay.millis_next h.delay⟩, rfl, rfl, rfl⟩
    | returned hge hescalate => exact absurd hlt hge
    | crashed hge hescalate => exact absurd hlt hge
    | exited hge hescalate => exact absurd hlt hge
  have hlater : now < now + momentOf (RetryDelay.millisAfter j) :=
    Nat.lt_add_of_pos_right (Nat.mul_pos (RetryDelay.millisAfter_pos j) (by decide))
  rw [hdrain, hpausing.drain_of_lt hlater]
  exact hpausing

theorem drain_of_hasEnded (h : l.hasEnded = true) : l.drain p false now = l := by
  apply drain_of_next?_eq_none
  rw [next?, if_pos h]

theorem Awaiting.gaveUp (h : Awaiting fates after j l) {e : PublishError}
    (he : (fates j).outcome = .error e) (hj : j + 1 = p.limit) :
    GaveUp p after (j + 1) e (l.drain p false now) := by
  obtain ⟨refused, hrefusal, hdrain⟩ := h.drain_error p now he
  have hfits := h.fits (p := p) (hj ▸ Nat.lt_succ_self j)
  have hge : ¬ countFailure l.observing.failures < p.settings.maxAttempts := by
    have hiff := countFailure_lt_iff p hfits
    rw [h.failures, hj] at hiff
    exact fun hlt => Nat.lt_irrefl _ (hiff.mp hlt)
  obtain ⟨hescalated, hslots, hended, hreturned⟩ := hrefusal.of_not_lt hge
  have hgaveUp : GaveUp p after (j + 1) e refused := by
    refine ⟨hrefusal.keeps.2.2.2 h.started, ?_, Option.isSome_iff_ne_none.mpr hended, hreturned,
      ?_, ?_, ?_, ?_⟩
    · exact hescalated.trans (congrArg (e :: ·) h.escalated)
    · rw [hslots]
      exact h.active
    · exact hrefusal.keeps.2.2.1.trans h.completed
    · exact hrefusal.attempted.1.trans h.attempted
    · rw [hrefusal.attempted.2]
      exact h.world
  rw [hdrain, drain_of_hasEnded hgaveUp.ended]
  exact hgaveUp

theorem striving_starting (hworld : after 0 world) :
    Striving after 0 0 ((new world).starting p) where
  started := rfl
  ending := rfl
  ticker := rfl
  active := rfl
  completed := rfl
  escalated := rfl
  attempted := rfl
  world := hworld
  failures := rfl
  delay := RetryDelay.millis_first

theorem awaiting_start (hplays : p.world.Plays fates after) (hworld : after 0 world)
    (hunscheduled : p.Unscheduled now) : Awaiting fates after 0 ((new world).start p now) := by
  have hticker : ((new world).start p now).ticker = none := ticker_start hunscheduled rfl
  obtain ⟨launched, ticker, log, hlaunch, heq⟩ := start_spec p now (new world)
  have hlaunched := hlaunch.awaiting hplays (striving_starting hworld) rfl
  rw [heq] at hticker ⊢
  exact { hlaunched with ticker := hticker }

theorem Pausing.awaiting_retry {deadline : Instant} (h : Pausing after j deadline l)
    (hplays : p.world.Plays fates after) : Awaiting fates after (j + 1) (l.retry p) :=
  (retry_spec p l).awaiting hplays { h with } rfl

theorem Pausing.drain_of_le {deadline : Instant} (h : Pausing after j deadline l)
    (hnow : deadline ≤ now) : l.drain p false now = (l.retry p).drain p false now :=
  drain_of_next? (next?_of_backoff h.ending h.ticker h.backoff hnow)

end Loop

namespace Rotation.Clocked

variable {p : Plan ω} {c : Clocked ω} {last : Nat}

/-- The loop as it is when the clock shows this, if it was left alone until then. -/
def loopAt (p : Plan ω) (last : Nat) (c : Clocked ω) : Loop ω :=
  ((c.advance p false (fun _ => false) last).serve p false).loop

theorem loopAt_of_le (h : last ≤ c.now) : c.loopAt p last = (c.serve p false).loop := by
  rw [loopAt, advance, if_neg (Nat.not_lt_of_le h)]

theorem advance_of_wake {wake : Nat} (hnow : c.now < wake) (hlast : wake < last)
    (hdeadline : (c.serve p false).loop.deadline? = some (momentOf wake)) :
    c.advance p false (fun _ => false) last =
      (⟨wake, (c.serve p false).loop⟩ : Clocked ω).advance p false (fun _ => false) last := by
  rw [advance, if_pos (Nat.lt_trans hnow hlast)]
  simp only [hdeadline, Option.map_some, wholeMillis_momentOf, hnow, hlast]
  rfl

/-- If nothing wakes the loop before the clock shows this, it is served then. -/
theorem advance_of_quiet (hnow : c.now < last)
    (hdeadline : ∀ deadline, (c.serve p false).loop.deadline? = some deadline →
      last ≤ wholeMillis deadline) :
    c.advance p false (fun _ => false) last = ⟨last, (c.serve p false).loop⟩ := by
  rw [advance, if_pos hnow]
  cases hnext : (c.serve p false).loop.deadline? with
  | none => simp [hnext]
  | some deadline =>
      have hlater := Nat.not_lt_of_le (hdeadline deadline hnext)
      simp [hnext, hlater]

theorem loopAt_of_wake {wake : Nat} (hnow : c.now < wake) (hlast : wake ≤ last)
    (hdeadline : (c.serve p false).loop.deadline? = some (momentOf wake)) :
    c.loopAt p last = (⟨wake, (c.serve p false).loop⟩ : Clocked ω).loopAt p last := by
  rcases Nat.lt_or_eq_of_le hlast with hlt | rfl
  · rw [loopAt, advance_of_wake hnow hlt hdeadline]
    rfl
  -- What is due at the very end is left to the last serving.
  · rw [loopAt_of_le (c := ⟨wake, _⟩) (Nat.le_refl wake), loopAt, advance_of_quiet hnow]
    intro deadline hsome
    rw [← Option.some.inj (hdeadline.symm.trans hsome), wholeMillis_momentOf]

theorem loopAt_of_settled (hnow : c.now ≤ last)
    (hdeadline : ∀ deadline, (c.serve p false).loop.deadline? = some deadline →
      last ≤ wholeMillis deadline)
    (hserved : (c.serve p false).loop.serve p false (momentOf last) = (c.serve p false).loop) :
    c.loopAt p last = (c.serve p false).loop := by
  rcases Nat.lt_or_eq_of_le hnow with hlt | heq
  · rw [loopAt, advance_of_quiet hlt hdeadline]
    exact hserved
  · exact loopAt_of_le (Nat.le_of_eq heq.symm)

/-- Served now, the loop makes this attempt. -/
structure Ready (p : Plan ω) (fates : Nat → Fate) (after : Nat → ω → Prop) (start j : Nat)
    (c : Clocked ω) : Prop where
  now : c.now = start + RetryDelay.waited j
  served : ∃ l, Loop.Awaiting fates after j l ∧
    (c.serve p false).loop = l.drain p false (momentOf c.now)

variable {fates : Nat → Fate} {after : Nat → ω → Prop} {start j : Nat}

theorem ready_new {world : ω} (hplays : p.world.Plays fates after) (hworld : after 0 world)
    (hunscheduled : p.Unscheduled (momentOf start)) :
    Ready p fates after start 0 ⟨start, .new world⟩ :=
  ⟨rfl, _, Loop.awaiting_start hplays hworld hunscheduled, rfl⟩

theorem ready_of_pausing {l : Loop ω} (hplays : p.world.Plays fates after)
    (h : l.Pausing after j (momentOf (start + RetryDelay.waited (j + 1)))) :
    Ready p fates after start (j + 1) ⟨start + RetryDelay.waited (j + 1), l⟩ := by
  refine ⟨rfl, _, h.awaiting_retry hplays, ?_⟩
  rw [← h.drain_of_le (Nat.le_refl _)]
  show l.serve p false _ = _
  rw [Loop.serve, if_pos h.started]
  rfl

namespace Ready

theorem pausing (h : Ready p fates after start j c) (hfails : (fates j).Fails)
    (hj : j + 1 < p.limit) :
    (c.serve p false).loop.Pausing after j (momentOf (start + RetryDelay.waited (j + 1))) := by
  obtain ⟨l, hl, hserved⟩ := h.served
  rw [hserved, RetryDelay.waited, ← Nat.add_assoc, momentOf_add, ← h.now]
  exact hl.pausing hfails hj

theorem loopAt_of_pausing (h : Ready p fates after start j c) (hfails : (fates j).Fails)
    (hj : j + 1 < p.limit) (hnow : start + RetryDelay.waited j ≤ last)
    (hlast : last < start + RetryDelay.waited (j + 1)) :
    (c.loopAt p last).Pausing after j (momentOf (start + RetryDelay.waited (j + 1))) := by
  have hpausing := h.pausing hfails hj
  rw [loopAt_of_settled (h.now ▸ hnow)]
  · exact hpausing
  · intro deadline hdeadline
    rw [← Option.some.inj (hpausing.deadline?_eq.symm.trans hdeadline), wholeMillis_momentOf]
    exact Nat.le_of_lt hlast
  · rw [Loop.serve, if_pos hpausing.started, hpausing.drain_of_lt (momentOf_lt hlast)]

theorem loopAt_of_succeeded (h : Ready p fates after start j c) {k : SigningKey}
    (hfate : fates j = .submitted k (.ok ())) (hnow : start + RetryDelay.waited j ≤ last) :
    (c.loopAt p last).Succeeded after (j + 1) k := by
  obtain ⟨l, hl, hserved⟩ := h.served
  have hsucceeded : (c.serve p false).loop.Succeeded after (j + 1) k := by
    rw [hserved]
    exact hl.succeeded hfate
  rw [loopAt_of_settled (h.now ▸ hnow)]
  · exact hsucceeded
  · intro deadline hdeadline
    simp [Loop.deadline?, hsucceeded.ticker, hsucceeded.backoff] at hdeadline
  · rw [Loop.serve, if_pos hsucceeded.started]
    exact hsucceeded.toResting.drain

theorem loopAt_of_gaveUp (h : Ready p fates after start j c) {e : PublishError}
    (he : (fates j).outcome = .error e) (hj : j + 1 = p.limit)
    (hnow : start + RetryDelay.waited j ≤ last) :
    (c.loopAt p last).GaveUp p after (j + 1) e := by
  obtain ⟨l, hl, hserved⟩ := h.served
  have hgaveUp : (c.serve p false).loop.GaveUp p after (j + 1) e := by
    rw [hserved]
    exact hl.gaveUp he hj
  rw [loopAt_of_settled (h.now ▸ hnow)]
  · exact hgaveUp
  · intro deadline hdeadline
    simp [Loop.deadline?, hgaveUp.ended] at hdeadline
  · rw [Loop.serve, if_pos hgaveUp.started, Loop.drain_of_hasEnded hgaveUp.ended]

/-- After failures only, the next attempt is made when as long was waited as is due. -/
theorem exists_later (hplays : p.world.Plays fates after) (h : Ready p fates after start 0 c)
    (hfails : ∀ i < j, (fates i).Fails) (hj : j < p.limit)
    (hlast : start + RetryDelay.waited j ≤ last) :
    ∃ d, Ready p fates after start j d ∧ c.loopAt p last = d.loopAt p last := by
  induction j with
  | zero => exact ⟨c, h, rfl⟩
  | succ j ih =>
      have hwaited := RetryDelay.waited_lt_succ j
      obtain ⟨d, hd, heq⟩ := ih (fun i hi => hfails i (Nat.lt_succ_of_lt hi))
        (Nat.lt_of_succ_lt hj) (by omega)
      have hpausing := hd.pausing (hfails j (Nat.lt_succ_self j)) hj
      have hnow : d.now < start + RetryDelay.waited (j + 1) := by
        rw [hd.now]
        omega
      -- The backoff of attempt `j` ends exactly when the next one is due.
      refine ⟨_, ready_of_pausing hplays hpausing, heq.trans ?_⟩
      exact loopAt_of_wake hnow hlast hpausing.deadline?_eq

end Ready

end Rotation.Clocked

/-- A new loop that begins when the clock shows `start` and is left alone for so many milliseconds:
nothing is reported to it, and it is not stopped. -/
def Rotation.Plan.leftAlone (p : Plan ω) (world : ω) (start millis : Nat) : Loop ω :=
  (((⟨start, .new world⟩ : Clocked ω).sleep p false millis).serve p false).loop

namespace Rotation.Plan

variable {p : Plan ω} {fates : Nat → Fate} {after : Nat → ω → Prop} {world : ω} {start : Nat}

/-- Between an attempt that failed and the next one, the loop waits. -/
theorem leftAlone_waitsBefore (hplays : p.world.Plays fates after) (hworld : after 0 world)
    (hunscheduled : p.Unscheduled (momentOf start)) {retry millis : Nat}
    (hfails : ∀ i < retry, (fates i).Fails) (hretry : retry < p.limit)
    (hmillis : millis < RetryDelay.waited retry) :
    (p.leftAlone world start millis).WaitsBefore after start retry millis := by
  obtain ⟨j, hj, hfrom, hto⟩ := RetryDelay.exists_waited hmillis
  have hready := Clocked.ready_new hplays hworld hunscheduled
  obtain ⟨c, hc, heq⟩ := hready.exists_later hplays
    (fun i hi => hfails i (Nat.lt_trans hi hj)) (Nat.lt_trans hj hretry)
    (Nat.add_le_add_left hfrom start)
  refine ⟨j, hj, hfrom, hto, ?_⟩
  show ((⟨start, .new world⟩ : Clocked ω).loopAt p (start + millis)).Pausing _ _ _
  rw [heq]
  exact hc.loopAt_of_pausing (hfails j hj) (Nat.lt_of_le_of_lt hj hretry)
    (Nat.add_le_add_left hfrom start) (Nat.add_lt_add_left hto start)

/-- A loop that never rotates by itself, and whose attempts come to their outcomes at once, makes
one attempt, and after each failure another one as soon as it has waited as long as is due. If the
first success is that of attempt `k`, and `k` is below the limit, its key comes into use at once,
after `k + 1` attempts, and no error is ever handed on. If all attempts up to the limit fail, the
last of these errors is handed on at once, and no key ever comes into use. -/
theorem retries_end_on_time (hplays : p.world.Plays fates after) (hworld : after 0 world)
    (hunscheduled : p.Unscheduled (momentOf start)) :
    (∀ k key, k < p.limit → (∀ i < k, (fates i).Fails) → fates k = .submitted key (.ok ()) →
      ∀ millis,
        (millis < RetryDelay.waited k →
          (p.leftAlone world start millis).WaitsBefore after start k millis) ∧
        (RetryDelay.waited k ≤ millis →
          (p.leftAlone world start millis).Succeeded after (k + 1) key)) ∧
    ∀ e, (∀ i < p.limit, (fates i).Fails) → (fates (p.limit - 1)).outcome = .error e →
      ∀ millis,
        (millis < RetryDelay.waited (p.limit - 1) →
          (p.leftAlone world start millis).WaitsBefore after start (p.limit - 1) millis) ∧
        (RetryDelay.waited (p.limit - 1) ≤ millis →
          (p.leftAlone world start millis).GaveUp p after p.limit e) := by
  have hready := Clocked.ready_new hplays hworld hunscheduled
  refine ⟨?_, ?_⟩
  · intro k key hk hfails hfate millis
    refine ⟨leftAlone_waitsBefore hplays hworld hunscheduled hfails hk, ?_⟩
    intro hmillis
    have hlast := Nat.add_le_add_left hmillis start
    obtain ⟨c, hc, heq⟩ := hready.exists_later hplays hfails hk hlast
    show ((⟨start, .new world⟩ : Clocked ω).loopAt p (start + millis)).Succeeded _ _ _
    rw [heq]
    exact hc.loopAt_of_succeeded hfate hlast
  · intro e hfails he millis
    have hlimit : p.limit - 1 + 1 = p.limit := Nat.sub_add_cancel (Nat.le_max_left _ _)
    have hbelow : p.limit - 1 < p.limit := by omega
    have hearlier := fun i hi => hfails i (Nat.lt_trans hi hbelow)
    refine ⟨leftAlone_waitsBefore hplays hworld hunscheduled hearlier hbelow, ?_⟩
    intro hmillis
    have hlast := Nat.add_le_add_left hmillis start
    obtain ⟨c, hc, heq⟩ := hready.exists_later hplays hearlier hbelow hlast
    show ((⟨start, .new world⟩ : Clocked ω).loopAt p (start + millis)).GaveUp _ _ _ _
    rw [heq, ← hlimit]
    exact hc.loopAt_of_gaveUp he hlimit hlast

end Rotation.Plan

end

namespace Rotation.Plan

/-- A plan for a trial without rotations. -/
def patient [Scheme] (maxAttempts : UInt32) : Plan (Trial Generator) where
  settings := { (Settings.new "issuer" "endpoint").withoutRotation with maxAttempts }
  world := Trial.world Generator.draw [] fun _ => .returns
  startedAt := 0

def mishaps [Scheme] : List Fate :=
  [.keyless (.crypto "no entropy"), .submitted (.numbered 1) (.error (.rejected "unknown issuer")),
    .submitted (.numbered 2) (.error .abandoned), .submitted (.numbered 3) (.ok ())]

/-- The fourth attempt succeeds after seven seconds. If three are allowed, the third error is handed
on after three. -/
theorem retries_end_on_time_mishaps :
    letI : Scheme := .plain
    let left (maxAttempts : UInt32) := (patient maxAttempts).leftAlone (Trial.enacting mishaps) 0
    (left 4 6999).phase = .backingOff ∧ (left 4 7000).phase = .idle ∧
      (left 4 7000).slots = ⟨some (.numbered 3), none⟩ ∧ (left 4 7000).metrics.attempted = 4 ∧
      (left 3 3000).escalated = [.abandoned] ∧ (left 3 3000).phase = .failed := by
  let _ : Scheme := .plain
  have hunscheduled (maxAttempts : UInt32) : (patient maxAttempts).Unscheduled (momentOf 0) := by
    intro d hinterval
    cases hinterval
  have hends (maxAttempts : UInt32) := retries_end_on_time
    (Trial.plays_fate mishaps fun _ => .returns) (Trial.enacts_enacting mishaps)
    (hunscheduled maxAttempts)
  have hfails : ∀ i < 3, (Trial.fate mishaps i).Fails := by
    intro i hi
    obtain rfl | rfl | rfl : i = 0 ∨ i = 1 ∨ i = 2 := by omega
    all_goals exact ⟨_, rfl⟩
  have hsucceeds := (hends 4).1 3 (.numbered 3) (by decide) hfails rfl
  obtain ⟨j, -, -, -, hpausing⟩ := (hsucceeds 6999).1 (by decide)
  have hsucceeded := (hsucceeds 7000).2 (by decide)
  have hgaveUp := ((hends 3).2 .abandoned hfails rfl 3000).2 (by decide)
  exact ⟨hpausing.phase, hsucceeded.phase, hsucceeded.slots, hsucceeded.attempted,
    hgaveUp.escalated, (hgaveUp.returned rfl).1⟩

end Rotation.Plan

end Keyring
