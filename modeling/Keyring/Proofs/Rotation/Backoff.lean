import Keyring.Proofs.Rotation.FailStop

namespace Keyring

open Rotation

namespace Rotation.RetryDelay

/-- The delay that is due after so many failures in a row: it doubles with each, up to a limit. -/
def millisAfter (failures : Nat) : Nat := min (1000 * Nat.pow 2 failures) 30000

theorem millisAfter_pos (failures : Nat) : 0 < millisAfter failures := by
  have hpow : 0 < Nat.pow 2 failures := Nat.two_pow_pos failures
  unfold millisAfter
  omega

theorem millis_first : first.millis = millisAfter 0 := rfl

theorem millis_first_le : first.millis ≤ longest := by decide

theorem millis_next {d : RetryDelay} {failures : Nat} (h : d.millis = millisAfter failures) :
    d.next.millis = millisAfter (failures + 1) := by
  have hpow : Nat.pow 2 (failures + 1) = Nat.pow 2 failures * 2 := Nat.pow_succ 2 failures
  simp only [next, longest, h, millisAfter, hpow]
  omega

end Rotation.RetryDelay

section

variable [Scheme] {ω : Type}

namespace Loop

variable {p : Plan ω} {l l' : Loop ω} {ds : Deeds}

theorem Launch.backoff_eq {w : World ω} {trigger : Trigger} {bid : Bid}
    (h : Launch w trigger l bid l') : l'.backoff = l.backoff ∧ l'.delay = l.delay := by
  cases h <;> exact ⟨rfl, rfl⟩

/-- A backoff begins with a failure, and it is gone with the next attempt. Else it stays. -/
theorem Step.backoff_cases (h : Step p l ds l') : l'.backoff = l.backoff ∨
    l'.backoff = none ∧ (∃ bid, .attempt bid ∈ ds) ∨ ∃ t e, ds = [.observe t (.error e)] := by
  cases h with
  | outside submissions world => exact Or.inl rfl
  | begun hnew hbid hlaunch => exact Or.inl hlaunch.backoff_eq.1
  | halted hrunning => exact Or.inl rfl
  | rotated hrunning hlaunch =>
      exact Or.inr (Or.inl ⟨hlaunch.backoff_eq.1, _, List.mem_cons_self⟩)
  | retried hrunning hphase hlaunch =>
      exact Or.inr (Or.inl ⟨hlaunch.backoff_eq.1, _, List.mem_cons_self⟩)
  | confirmed hrunning hphase hout => exact Or.inl rfl
  | refused hrunning hphase hout hrefusal => exact Or.inr (Or.inr ⟨_, _, rfl⟩)

theorem backoff_signalsAt {deadline : Instant} (h : l.backoff = some deadline) (stop : Bool)
    (now : Instant) : (l.signalsAt stop now).backoff = true ↔ deadline ≤ now := by
  simp [signalsAt, h]

theorem Refusal.armed {now : Instant} {e : PublishError} (h : Refusal p now e l l')
    (hending : l'.ending = none) :
    l'.backoff = some (l.delay.after now) ∧ l'.delay = l.delay.next ∧
      l'.failures = countFailure l.failures := by
  cases h with
  | backedOff hlt => exact ⟨rfl, rfl, rfl⟩
  | returned hge hescalate => cases hending
  | crashed hge hescalate => cases hending
  | exited hge hescalate => cases hending

end Loop

/-- The delay that is kept for the next failure follows from the failures in a row, as long as the
loop goes on. -/
structure Paced (c : Chronicle ω) : Prop where
  current : c.loop.ending = none →
    c.loop.delay.millis = RetryDelay.millisAfter c.loop.failures.toNat
  bounded : c.loop.delay.millis ≤ RetryDelay.longest

namespace Paced

variable {p : Plan ω} {c : Chronicle ω} {ds : Deeds} {l : Loop ω}

theorem new (world : ω) : Paced (.new world) :=
  ⟨fun _ => RetryDelay.millis_first, RetryDelay.millis_first_le⟩

theorem keep (h : Paced c) (hending : c.loop.ending = none) (hdelay : l.delay = c.loop.delay)
    (hfailures : l.failures = c.loop.failures) : Paced ⟨l, ds⟩ where
  current _ := by
    rw [hdelay, hfailures]
    exact h.current hending
  bounded := by
    rw [hdelay]
    exact h.bounded

theorem refuse (h : Paced c) (hstrict : Strict p c) (hrunning : c.loop.Running) {now : Instant}
    {e : PublishError} (hrefusal : Loop.Refusal p now e c.loop.observing l) : Paced ⟨l, ds⟩ where
  current hending := by
    obtain ⟨-, hdelay, hfailures⟩ := hrefusal.armed hending
    have hcount := Loop.toNat_countFailure (hstrict.fits hrunning.2)
    rw [hdelay, hfailures]
    exact (RetryDelay.millis_next (h.current hrunning.2)).trans (congrArg _ hcount.symm)
  bounded := by
    cases hrefusal with
    | backedOff hlt => exact Nat.min_le_right _ _
    | returned hge hescalate => exact h.bounded
    | crashed hge hescalate => exact h.bounded
    | exited hge hescalate => exact h.bounded

theorem step (h : Paced c) (hstrict : Strict p c) (hstep : Loop.Step p c.loop ds l) :
    Paced ⟨l, ds ++ c.deeds⟩ := by
  cases hstep with
  | outside submissions world => exact ⟨h.current, h.bounded⟩
  | begun hnew hbid hlaunch =>
      exact h.keep (by rw [hnew]; rfl) hlaunch.backoff_eq.2 hlaunch.keeps.2.2.1
  | halted hrunning => exact h.keep hrunning.2 rfl rfl
  | rotated hrunning hlaunch =>
      exact h.keep hrunning.2 hlaunch.backoff_eq.2 hlaunch.keeps.2.2.1
  | retried hrunning hphase hlaunch =>
      exact h.keep hrunning.2 hlaunch.backoff_eq.2 hlaunch.keeps.2.2.1
  | confirmed hrunning hphase hout =>
      exact ⟨fun _ => RetryDelay.millis_first, RetryDelay.millis_first_le⟩
  | refused hrunning hphase hout hrefusal => exact h.refuse hstrict hrunning hrefusal

theorem run (p : Plan ω) (world : ω) (turns : List (Loop.Turn ω)) :
    Paced (.run p world turns) :=
  Strict.induction (new world) (fun _ _ _ hstrict hstep h => h.step hstrict hstep) turns

end Paced

namespace Chronicle

/-- A failure that is observed in a turn is dealt with at the moment of the turn. -/
theorem refusal_of_failure {p : Plan ω} {s : Signals} {now : Instant} {c : Chronicle ω}
    {t : Tracked} {e : PublishError}
    (h : (c.turn p (.serve s now)).deeds = .observe t (.error e) :: c.deeds) :
    c.loop.ending = none ∧
      Loop.Refusal p now e c.loop.observing (c.turn p (.serve s now)).loop := by
  simp only [turn] at h ⊢
  rcases serve_cases p s now c with ⟨-, heq⟩ | ⟨-, heq | ⟨o, hnext, heq⟩⟩
  · rw [heq] at h
    cases h
  · rw [heq] at h
    exact absurd (congrArg List.length h) (by simp)
  · rw [heq] at h ⊢
    refine ⟨(Loop.next?_cases hnext).1, ?_⟩
    cases o with
    | outcome o =>
        obtain ⟨rfl, rfl⟩ := Deed.observe.inj (List.cons.inj h).1
        simp only [Loop.react, Loop.settle_eq_observing]
        exact Loop.refuse_spec p now e c.loop.observing
    | stop => cases h
    | retry => cases h
    | tick => cases (List.cons.inj h).1

/-- As long as the loop goes on, the delay that it keeps is the one after as many failures as it has
counted in a row. With a failure that it will try again after, a backoff begins that lasts as long
as is due after the failures before it; it is over from then on, and not before. No backoff begins
in another way, and it stays until the next attempt. The delay never passes its limit, so doubling
it never comes to the bound of a word. -/
theorem backoff_law (p : Plan ω) (world : ω) (turns : List (Loop.Turn ω)) :
    let c := run p world turns
    (c.loop.ending = none →
      c.loop.delay.millis = RetryDelay.millisAfter c.loop.failures.toNat) ∧
    (c.loop.delay.millis ≤ 30000 ∧ c.loop.delay.millis * 2 < UInt64.size) ∧
    (∀ s now t e, let d := c.turn p (.serve s now)
      d.deeds = .observe t (.error e) :: c.deeds → d.loop.ending = none →
      ∃ f, d.deeds.failuresInARow = f + 1 ∧
        d.loop.backoff = some (now + (Duration.ofMillis (RetryDelay.millisAfter f)).nanos) ∧
        ∀ stop later, (d.loop.signalsAt stop later).backoff = true ↔
          now + (Duration.ofMillis (RetryDelay.millisAfter f)).nanos ≤ later) ∧
    ∀ t, let d := c.turn p t
      d.loop.backoff = c.loop.backoff ∨
        d.loop.backoff = none ∧ (∃ ds bid, d.deeds = ds ++ c.deeds ∧ .attempt bid ∈ ds) ∨
        ∃ tracked e, d.deeds = .observe tracked (.error e) :: c.deeds := by
  intro c
  have hpaced : Paced c := Paced.run p world turns
  have hstrict : Strict p c := Strict.run p world turns
  have hbounded : c.loop.delay.millis ≤ 30000 := hpaced.bounded
  refine ⟨hpaced.current, ⟨hbounded, ?_⟩, ?_, ?_⟩
  · exact Nat.lt_of_le_of_lt (Nat.mul_le_mul_right 2 hbounded) (by decide)
  · intro s now t e d hobserved hgoes
    obtain ⟨hending, hrefusal⟩ := refusal_of_failure hobserved
    have hbackoff : d.loop.backoff = some (c.loop.delay.after now) := (hrefusal.armed hgoes).1
    rw [RetryDelay.after, hpaced.current hending] at hbackoff
    refine ⟨c.loop.failures.toNat, hstrict.failuresInARow_of_failure hobserved, hbackoff, ?_⟩
    exact Loop.backoff_signalsAt hbackoff
  · intro t d
    obtain ⟨ds, hstep, hds⟩ := step_turn_run p world turns t
    rcases hstep.backoff_cases with hsame | ⟨hnone, bid, hbid⟩ | ⟨tracked, e, rfl⟩
    · exact Or.inl hsame
    · exact Or.inr (Or.inl ⟨hnone, ds, bid, hds, hbid⟩)
    · exact Or.inr (Or.inr ⟨tracked, e, hds⟩)

end Chronicle

end

namespace Chronicle

/-- A failure, its backoff, and the retry. -/
def secondTry : List (Loop.Turn Unit) :=
  [.serve ⟨false, false, false⟩ 0, .serve ⟨false, false, false⟩ 0,
    .serve ⟨false, false, true⟩ (Duration.ofSecs 1).nanos]

/-- With the second failure in a row, a backoff of two seconds begins. -/
theorem backoff_law_second_failure :
    letI : Scheme := .plain
    let now : Instant := (Duration.ofSecs 1).nanos
    let c := run (barren 3) () secondTry
    let d := c.turn (barren 3) (.serve ⟨false, false, false⟩ now)
    c.loop.delay.millis = 2000 ∧ d.deeds.failuresInARow = 2 ∧
      ∀ stop later, (d.loop.signalsAt stop later).backoff = true ↔
        now + (Duration.ofSecs 2).nanos ≤ later := by
  let _ : Scheme := .plain
  let now : Instant := (Duration.ofSecs 1).nanos
  let c := run (barren 3) () secondTry
  have hdelay : c.loop.delay.millis = 2000 := by decide +kernel
  have hgoes : (c.turn (barren 3) (.serve ⟨false, false, false⟩ now)).loop.ending = none := by
    decide +kernel
  have hcount :
      (c.turn (barren 3) (.serve ⟨false, false, false⟩ now)).deeds.failuresInARow = 2 := by
    decide +kernel
  have hlength : Duration.ofMillis (RetryDelay.millisAfter 1) = .ofSecs 2 := by decide
  obtain ⟨-, -, hbegins, -⟩ := backoff_law (barren 3) () secondTry
  obtain ⟨f, hf, -, hends⟩ := hbegins ⟨false, false, false⟩ now _ _ rfl hgoes
  obtain rfl : f = 1 := Nat.succ.inj (hf.symm.trans hcount)
  rw [hlength] at hends
  exact ⟨hdelay, hcount, hends⟩

end Chronicle

end Keyring
