import Keyring.Proofs.Rotation.Accounts
import Keyring.Proofs.Rotation.Posture

namespace Keyring

open Rotation

variable [Scheme] {ω : Type}

/-- What holds of a loop and its deeds between two turns. -/
structure Chronicle.Sound (c : Chronicle ω) : Prop where
  posture : c.loop.Posture
  accounted : Accounted c.deeds c.loop.slots c.loop.tracked c.loop.submissions

namespace Loop

theorem accounted_start (p : Plan ω) (now : Instant) {l : Loop ω} {ds : Deeds}
    (h : Accounted ds l.slots l.tracked l.submissions) (htracked : l.tracked = .inert) :
    Accounted (.attempt (l.bid p.world .bootstrap) :: ds) (l.start p now).slots
      (l.start p now).tracked (l.start p now).submissions := by
  rw [htracked] at h
  obtain ⟨launched, ticker, log, hlaunch, heq⟩ := start_spec p now l
  have hlaunched := Accounted.launch (l := l.starting p) h htracked hlaunch
  rw [heq]
  exact hlaunched

theorem accounted_halt {l : Loop ω} {ds : Deeds}
    (h : Accounted ds l.slots l.tracked l.submissions) :
    Accounted (.cancel l.tracked :: ds) l.halt.slots l.halt.tracked l.halt.submissions := by
  unfold halt
  rw [cancel_eq]
  exact h.cancel

theorem accounted_rotate (p : Plan ω) (now : Instant) {l : Loop ω} {ds : Deeds}
    (h : Accounted ds l.slots l.tracked l.submissions) :
    Accounted (.attempt ((l.cancel "superseded").bid p.world .scheduled) :: .cancel l.tracked :: ds)
      (l.rotate p now).slots (l.rotate p now).tracked (l.rotate p now).submissions :=
  Accounted.launch (l := l.superseding now) h.cancel rfl (rotate_spec p now l)

theorem accounted_retry (p : Plan ω) {l : Loop ω} {ds : Deeds}
    (h : Accounted ds l.slots l.tracked l.submissions) (htracked : l.tracked = .inert) :
    Accounted (.attempt (l.bid p.world .retry) :: ds) (l.retry p).slots (l.retry p).tracked
      (l.retry p).submissions := by
  rw [htracked] at h
  exact Accounted.launch (l := l.retrying) h htracked (retry_spec p l)

theorem refuse_keeps (p : Plan ω) (now : Instant) (e : PublishError) (l : Loop ω) :
    (l.refuse p now e).slots = l.slots ∧ (l.refuse p now e).tracked = l.tracked ∧
      (l.refuse p now e).submissions = l.submissions ∧ (l.refuse p now e).world = l.world := by
  simp only [refuse]
  split
  · simp only [backOff, report, note, meter, and_self]
  · simp only [escalate, meter, note]
    split
    · simp only [finish, report, note, and_self]
    · simp only [and_self]
    · simp only [and_self]

theorem accounted_outcome (p : Plan ω) (now : Instant) {l : Loop ω} {ds : Deeds} {o : Outcome}
    (h : Accounted ds l.slots l.tracked l.submissions) (hout : l.outcome? = some o) :
    Accounted (.observe l.tracked o :: ds) (l.react p now (.outcome o)).slots
      (l.react p now (.outcome o)).tracked (l.react p now (.outcome o)).submissions := by
  cases o with
  | ok _ =>
      simp only [react, settle_eq]
      exact h.observe_ok hout
  | error e =>
      obtain ⟨hslots, htracked, hsubmissions, -⟩ := refuse_keeps p now e l.settle
      simp only [react]
      rw [hslots, htracked, hsubmissions, settle_eq]
      exact h.observe_error hout

/-- Every reaction keeps the accounts, with what it does added to them. -/
theorem accounted_react (p : Plan ω) (s : Signals) (now : Instant) {l : Loop ω} {ds : Deeds}
    {o : Occurrence} (h : Accounted ds l.slots l.tracked l.submissions) (hposture : l.Posture)
    (hnext : l.next? s = some o) :
    Accounted (l.deeds p o ++ ds) (l.react p now o).slots (l.react p now o).tracked
      (l.react p now o).submissions := by
  obtain ⟨-, hcause⟩ := next?_cases hnext
  cases o with
  | stop => exact accounted_halt h
  | tick => exact accounted_rotate p now h
  | retry =>
      have hbackoff : l.backoff ≠ none := Option.isSome_iff_ne_none.mp hcause.1
      exact accounted_retry p h (hposture.tracked_of_backoff hbackoff)
  | outcome o => exact accounted_outcome p now h hcause

end Loop

namespace Chronicle

theorem Sound.tracked_of_unstarted {c : Chronicle ω} (h : c.Sound)
    (hstarted : c.loop.started = false) : c.loop.tracked = .inert := by
  have hposture := h.posture
  unfold Loop.Posture at hposture
  rw [hstarted] at hposture
  exact hposture.of_unstarted.1

theorem sound_new (world : ω) : (new world).Sound := ⟨Loop.posture_new world, .nil⟩

theorem sound_serve (p : Plan ω) (s : Signals) (now : Instant) {c : Chronicle ω} (h : c.Sound) :
    (c.serve p s now).Sound := by
  rcases serve_cases p s now c with ⟨hstarted, heq⟩ | ⟨hstarted, heq | ⟨o, hnext, heq⟩⟩
  · rw [heq]
    exact ⟨Loop.posture_start p now h.posture hstarted,
      Loop.accounted_start p now h.accounted (h.tracked_of_unstarted hstarted)⟩
  · rw [heq]
    exact h
  · rw [heq]
    exact ⟨Loop.posture_react p s now h.posture hstarted hnext,
      Loop.accounted_react p s now h.accounted h.posture hnext⟩

theorem sound_turn (p : Plan ω) {c : Chronicle ω} (t : Loop.Turn ω) (h : c.Sound) :
    (c.turn p t).Sound := by
  cases t with
  | serve s now => exact sound_serve p s now h
  | report i outcome =>
      exact ⟨h.posture, h.accounted.modify i (Submission.reported_complete outcome)⟩
  | abandon i => exact ⟨h.posture, h.accounted.modify i Submission.reported_abandon⟩
  | elapse world => exact ⟨h.posture, h.accounted⟩

theorem sound_extend (p : Plan ω) {c : Chronicle ω} (h : c.Sound) (turns : List (Loop.Turn ω)) :
    (c.extend p turns).Sound :=
  extend_induction (fun _ t hc => sound_turn p t hc) h turns

theorem sound_run (p : Plan ω) (world : ω) (turns : List (Loop.Turn ω)) :
    (run p world turns).Sound :=
  sound_extend p (sound_new world) turns

end Chronicle

end Keyring
