import Keyring.Proofs.Rotation.Reaction

namespace Keyring

open Rotation

/-- How it goes together whether a loop has started, its phase, what it awaits, its backoff and its
end, between two turns. -/
inductive Stance : Bool → Phase → Tracked → Option Instant → Option Ending → Prop
  | unstarted (phase : Phase) : Stance false phase .inert none none
  | awaiting {t : Tracked} (h : t ≠ .inert) : Stance true .awaiting t none none
  | idle : Stance true .idle .inert none none
  | backingOff (deadline : Instant) : Stance true .backingOff .inert (some deadline) none
  | ended (phase : Phase) (backoff : Option Instant) (ending : Ending) :
      Stance true phase .inert backoff (some ending)

namespace Stance

variable {started : Bool} {phase : Phase} {tracked : Tracked} {backoff : Option Instant}
  {ending : Option Ending}

theorem tracked_of_backoff (h : Stance started phase tracked backoff ending)
    (hbackoff : backoff ≠ none) : tracked = .inert := by
  cases h with
  | awaiting ht => exact absurd rfl hbackoff
  | _ => rfl

theorem of_unstarted (h : Stance false phase tracked backoff ending) :
    tracked = .inert ∧ backoff = none ∧ ending = none := by
  cases h with
  | unstarted phase => exact ⟨rfl, rfl, rfl⟩

theorem started_of_ending (h : Stance started phase tracked backoff ending)
    (hending : ending ≠ none) : started = true := by
  cases h with
  | ended => rfl
  | _ => exact absurd rfl hending

theorem of_tracked (h : Stance started phase tracked backoff ending) (htracked : tracked ≠ .inert) :
    started = true ∧ phase = .awaiting ∧ backoff = none ∧ ending = none := by
  cases h with
  | awaiting ht => exact ⟨rfl, rfl, rfl, rfl⟩
  | _ => exact absurd rfl htracked

theorem of_idle (h : Stance true .idle tracked backoff none) :
    tracked = .inert ∧ backoff = none := by
  cases h with
  | idle => exact ⟨rfl, rfl⟩

theorem phase_cases (h : Stance true phase tracked backoff none) :
    phase = .awaiting ∧ tracked ≠ .inert ∧ backoff = none ∨
      phase = .idle ∧ tracked = .inert ∧ backoff = none ∨
      phase = .backingOff ∧ tracked = .inert ∧ backoff.isSome = true := by
  cases h with
  | awaiting ht => exact Or.inl ⟨rfl, ht, rfl⟩
  | idle => exact Or.inr (Or.inl ⟨rfl, rfl, rfl⟩)
  | backingOff deadline => exact Or.inr (Or.inr ⟨rfl, rfl, rfl⟩)

end Stance

namespace Loop

variable [Scheme] {ω : Type}

def Posture (l : Loop ω) : Prop := Stance l.started l.phase l.tracked l.backoff l.ending

theorem posture_new (world : ω) : (new world).Posture := .unstarted _

theorem tracked_ne_of_outcome? {l : Loop ω} {o : Outcome} (h : l.outcome? = some o) :
    l.tracked ≠ .inert := by
  intro htracked
  simp [outcome?, htracked] at h

theorem posture_of_launch {w : World ω} {trigger : Trigger} {l l' : Loop ω} {bid : Bid}
    (h : Launch w trigger l bid l') (hstarted : l.started = true) (htracked : l.tracked = .inert)
    (hbackoff : l.backoff = none) (hending : l.ending = none) : l'.Posture := by
  cases h with
  | undrawn hdraw =>
      show Stance l.started l.phase l.tracked l.backoff _
      rw [hstarted, htracked]
      exact .ended _ _ _
  | failed hdraw =>
      show Stance true .awaiting _ l.backoff l.ending
      rw [hbackoff, hending]
      exact .awaiting (by simp [report])
  | crashed hdraw hpublish =>
      show Stance l.started l.phase l.tracked l.backoff _
      rw [hstarted, htracked]
      exact .ended _ _ _
  | accepted hdraw hpublish =>
      show Stance true .awaiting _ l.backoff l.ending
      rw [hbackoff, hending]
      exact .awaiting (by simp [report])

theorem posture_start (p : Plan ω) (now : Instant) {l : Loop ω} (h : l.Posture)
    (hstarted : l.started = false) : (l.start p now).Posture := by
  unfold Posture at h
  rw [hstarted] at h
  obtain ⟨htracked, hbackoff, hending⟩ := h.of_unstarted
  obtain ⟨launched, ticker, log, hlaunch, heq⟩ := start_spec p now l
  have hlaunched : launched.Posture := posture_of_launch hlaunch rfl htracked hbackoff hending
  rw [heq]
  exact hlaunched

theorem posture_halt (l : Loop ω) : l.halt.Posture := by
  unfold halt
  rw [cancel_eq]
  exact .ended _ _ _

theorem posture_rotate (p : Plan ω) (now : Instant) {l : Loop ω} (hstarted : l.started = true)
    (hending : l.ending = none) : (l.rotate p now).Posture :=
  posture_of_launch (rotate_spec p now l) hstarted rfl rfl hending

theorem posture_retry (p : Plan ω) {l : Loop ω} (hstarted : l.started = true)
    (htracked : l.tracked = .inert) (hending : l.ending = none) : (l.retry p).Posture :=
  posture_of_launch (retry_spec p l) hstarted htracked rfl hending

theorem posture_confirm (p : Plan ω) (now : Instant) {l : Loop ω} (htracked : l.tracked = .inert)
    (hbackoff : l.backoff = none) (hending : l.ending = none) : (l.confirm p now).Posture := by
  show Stance true .idle l.tracked l.backoff l.ending
  rw [htracked, hbackoff, hending]
  exact .idle

theorem posture_escalate (w : World ω) (e : PublishError) {l : Loop ω} (hstarted : l.started = true)
    (htracked : l.tracked = .inert) : (l.escalate w e).Posture := by
  unfold escalate
  dsimp only
  split
  · show Stance true _ l.tracked _ _
    rw [htracked]
    exact .ended _ _ _
  · show Stance l.started _ l.tracked _ _
    rw [hstarted, htracked]
    exact .ended _ _ _
  · show Stance l.started _ l.tracked _ _
    rw [hstarted, htracked]
    exact .ended _ _ _

theorem posture_refuse (p : Plan ω) (now : Instant) (e : PublishError) {l : Loop ω}
    (hstarted : l.started = true) (htracked : l.tracked = .inert) (hending : l.ending = none) :
    (l.refuse p now e).Posture := by
  unfold refuse
  dsimp only
  split
  · show Stance true .backingOff l.tracked _ l.ending
    rw [htracked, hending]
    exact .backingOff _
  · exact posture_escalate p.world e hstarted htracked

/-- Every reaction leaves the loop in one of its postures. -/
theorem posture_react (p : Plan ω) (s : Signals) (now : Instant) {l : Loop ω} {o : Occurrence}
    (h : l.Posture) (hstarted : l.started = true) (hnext : l.next? s = some o) :
    (l.react p now o).Posture := by
  obtain ⟨hending, hcause⟩ := next?_cases hnext
  cases o with
  | stop => exact posture_halt l
  | tick => exact posture_rotate p now hstarted hending
  | retry =>
      have hbackoff : l.backoff ≠ none := Option.isSome_iff_ne_none.mp hcause.1
      exact posture_retry p hstarted (h.tracked_of_backoff hbackoff) hending
  | outcome o =>
      obtain ⟨-, -, hbackoff, -⟩ := h.of_tracked (tracked_ne_of_outcome? hcause)
      cases o with
      | ok _ =>
          simp only [react, settle_eq]
          exact posture_confirm p now rfl hbackoff hending
      | error e =>
          simp only [react, settle_eq]
          exact posture_refuse p now e hstarted rfl hending

end Loop

end Keyring
