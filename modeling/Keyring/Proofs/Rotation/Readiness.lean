import Keyring.Proofs.Rotation.Succession
import Keyring.Proofs.Rotation.Unscheduled

namespace Keyring

open Rotation

section

variable [Scheme] {ω : Type}

/-- What there is to await, and which key waits with it, follows from what an attempt was given: a
fresh key is submitted, and else the reason why there is none is the outcome. -/
def Bid.Engages (bid : Bid) (t : Tracked) (pending : Option SigningKey) : Prop :=
  (∃ k n, bid.draw = .key k ∧ t = .submitted n ∧ pending = some k) ∨
    ∃ e, bid.draw = .failed e ∧ t = .failed (.keyGeneration e.message) ∧ pending = none

namespace Loop

variable {l l' : Loop ω}

theorem Posture.tracked_eq_inert_iff (h : l.Posture) (hrunning : l.Running) :
    l.tracked = .inert ↔ l.phase ≠ .awaiting := by
  rcases (h.stance hrunning).phase_cases with ⟨hphase, htracked, -⟩ | ⟨hphase, htracked, -⟩ |
    ⟨hphase, htracked, -⟩
  · exact iff_of_false htracked (not_not_intro hphase)
  · exact iff_of_true htracked (by rw [hphase]; decide)
  · exact iff_of_true htracked (by rw [hphase]; decide)

theorem Launch.engages {w : World ω} {trigger : Trigger} {bid : Bid}
    (h : Launch w trigger l bid l') (htracked : l'.tracked ≠ l.tracked) :
    bid.operation = some l'.tracked ∧ bid.Engages l'.tracked l'.slots.pending := by
  cases h with
  | undrawn hdraw => exact absurd rfl htracked
  | failed hdraw => exact ⟨rfl, Or.inr ⟨_, rfl, rfl, rfl⟩⟩
  | crashed hdraw hpublish => exact absurd rfl htracked
  | accepted hdraw hpublish => exact ⟨rfl, Or.inl ⟨_, _, rfl, rfl, rfl⟩⟩

end Loop

/-- What a loop awaits belongs to the attempt that it made last, and since then it has done nothing.
It waits to try again only after failures, and only below the maximum. -/
structure Attentive (p : Plan ω) (c : Chronicle ω) : Prop where
  latest : c.loop.tracked ≠ .inert → ∃ bid before, c.deeds = .attempt bid :: before ∧
    bid.operation = some c.loop.tracked ∧ bid.Engages c.loop.tracked c.loop.slots.pending
  counted : c.loop.ending = none → c.loop.phase = .backingOff →
    0 < c.loop.failures ∧ c.loop.failures < p.settings.maxAttempts

namespace Attentive

variable {p : Plan ω} {c : Chronicle ω} {ds : Deeds} {l l' : Loop ω}

theorem new (p : Plan ω) (world : ω) : Attentive p (.new world) where
  latest h := absurd rfl h
  counted _ h := by cases h

theorem launch {trigger : Trigger} {bid : Bid}
    (hlaunch : Loop.Launch p.world trigger l bid l') (htracked : l.tracked = .inert) :
    Attentive p ⟨l', .attempt bid :: ds⟩ where
  latest h := by
    refine ⟨bid, ds, rfl, hlaunch.engages ?_⟩
    rw [htracked]
    exact h
  counted hending hphase := by
    rcases hlaunch.told with ⟨⟨text, hcrashed⟩, -⟩ | ⟨-, hawaiting, -⟩
    · cases hending.symm.trans hcrashed
    · cases hphase.symm.trans hawaiting

theorem refuse {now : Instant} {e : PublishError}
    (hrefusal : Loop.Refusal p now e c.loop.observing l) : Attentive p ⟨l, ds⟩ := by
  cases hrefusal with
  | backedOff hlt => exact ⟨absurd rfl, fun _ _ => ⟨Loop.countFailure_pos _, hlt⟩⟩
  | returned hge hescalate => exact ⟨absurd rfl, fun hending => by cases hending⟩
  | crashed hge hescalate => exact ⟨absurd rfl, fun hending => by cases hending⟩
  | exited hge hescalate => exact ⟨absurd rfl, fun hending => by cases hending⟩

theorem step (h : Attentive p c) (hposture : c.loop.Posture) (hstep : Loop.Step p c.loop ds l) :
    Attentive p ⟨l, ds ++ c.deeds⟩ := by
  cases hstep with
  | outside submissions world => exact ⟨h.latest, h.counted⟩
  | @begun bid launched ticker log hnew hbid hlaunch =>
      have hlaunched : Attentive p ⟨launched, .attempt bid :: c.deeds⟩ :=
        launch hlaunch (by rw [hnew]; rfl)
      exact ⟨hlaunched.latest, hlaunched.counted⟩
  | halted hrunning => exact ⟨absurd rfl, fun hending => by cases hending⟩
  | rotated hrunning hlaunch => exact launch hlaunch rfl
  | retried hrunning hphase hlaunch =>
      have hinert := (hposture.tracked_eq_inert_iff hrunning).mpr (by rw [hphase]; decide)
      exact launch hlaunch hinert
  | confirmed hrunning hphase hout => exact ⟨absurd rfl, fun _ hidle => by cases hidle⟩
  | refused hrunning hphase hout hrefusal => exact refuse hrefusal

theorem run (p : Plan ω) (world : ω) (turns : List (Loop.Turn ω)) :
    Attentive p (.run p world turns) :=
  Chronicle.step_induction (new p world) (fun _ _ _ hc hstep h => h.step hc.posture hstep) turns

end Attentive

/-- What a loop that goes on waits for between two turns. -/
structure Poised (p : Plan ω) (c : Chronicle ω) : Prop where
  phase : c.loop.phase = .awaiting ∨ c.loop.phase = .idle ∨ c.loop.phase = .backingOff
  armed : c.loop.backoff.isSome = true ↔ c.loop.phase = .backingOff
  /-- Nothing is awaited, and whatever is reported or abandoned from then on, no outcome is there
  before the loop is served. -/
  resting : c.loop.phase = .idle ∨ c.loop.phase = .backingOff → c.loop.tracked = .inert ∧
    ∀ more, (∀ t ∈ more, t.serves = false) → ∀ s o,
      (c.extend p more).loop.next? s ≠ some (.outcome o)
  /-- The latest attempt is awaited. It is the last thing done, so it was neither cancelled nor
  observed. Its key waits with it; without a key the outcome is there, and it is the reason. -/
  awaiting : c.loop.phase = .awaiting → ∃ bid before, c.deeds = .attempt bid :: before ∧
    bid.operation = some c.loop.tracked ∧
    ((∃ k n s, bid.draw = .key k ∧ c.loop.slots.pending = some k ∧
        c.loop.tracked = .submitted n ∧ c.deeds.Live n ∧
        c.loop.submissions[n]? = some s ∧ s.cancelled = false ∧ s.held = true) ∨
      ∃ e, bid.draw = .failed e ∧ c.loop.slots.pending = none ∧
        c.loop.tracked = .failed (.keyGeneration e.message) ∧ ∀ more,
          (∀ t ∈ more, t.serves = false) →
            (c.extend p more).loop.outcome? = some (.error (.keyGeneration e.message)))
  counted : c.loop.phase = .backingOff →
    0 < c.loop.failures ∧ c.loop.failures < p.settings.maxAttempts

namespace Chronicle

variable {p : Plan ω} {c : Chronicle ω} {more : List (Loop.Turn ω)}

/-- What is awaited does not change before the loop is served. -/
theorem tracked_of_unserved (p : Plan ω) (c : Chronicle ω) (hmore : ∀ t ∈ more, t.serves = false) :
    (c.extend p more).loop.tracked = c.loop.tracked := by
  induction more generalizing c with
  | nil => rfl
  | cons t more ih =>
      have hrest := fun t h => hmore t (List.mem_cons_of_mem _ h)
      cases t with
      | serve s now => cases hmore _ List.mem_cons_self
      | report i outcome => exact ih (c.turn p (.report i outcome)) hrest
      | abandon i => exact ih (c.turn p (.abandon i)) hrest
      | elapse world => exact ih (c.turn p (.elapse world)) hrest

theorem next?_ne_outcome (htracked : c.loop.tracked = .inert)
    (hmore : ∀ t ∈ more, t.serves = false) (s : Signals) (o : Outcome) :
    (c.extend p more).loop.next? s ≠ some (.outcome o) := by
  intro hnext
  apply Loop.tracked_ne_of_outcome? (Loop.next?_cases hnext).2
  rw [tracked_of_unserved p c hmore, htracked]

theorem outcome?_of_failed {e : PublishError} (htracked : c.loop.tracked = .failed e)
    (hmore : ∀ t ∈ more, t.serves = false) :
    (c.extend p more).loop.outcome? = some (.error e) := by
  rw [Loop.outcome?, tracked_of_unserved p c hmore, htracked]

theorem Sound.live (h : c.Sound) {n : Nat} (htracked : c.loop.tracked = .submitted n) :
    ∃ s, c.deeds.Live n ∧ c.loop.submissions[n]? = some s ∧ s.cancelled = false ∧
      s.held = true := by
  obtain ⟨-, ⟨s, hs, hcancelled, hheld⟩, -⟩ := h.accounted.latest n htracked
  exact ⟨s, h.accounted.live_of_flags hs hcancelled hheld, hs, hcancelled, hheld⟩

/-- At every moment between two turns of a run that goes on, the phase of the loop says what it
waits for: an outcome of its latest attempt and no other, the end of a backoff, or neither. -/
theorem poised_run (p : Plan ω) (world : ω) (turns : List (Loop.Turn ω))
    (hrunning : (run p world turns).loop.Running) : Poised p (run p world turns) := by
  have hc : (run p world turns).Sound := sound_run p world turns
  have hattentive : Attentive p (run p world turns) := Attentive.run p world turns
  have hphases := (hc.posture.stance hrunning).phase_cases
  have hinert := hc.posture.tracked_eq_inert_iff hrunning
  refine ⟨?_, ?_, ?_, ?_, hattentive.counted hrunning.2⟩
  · exact hphases.imp And.left (Or.imp And.left And.left)
  · rcases hphases with ⟨hphase, -, hbackoff⟩ | ⟨hphase, -, hbackoff⟩ | ⟨hphase, -, hbackoff⟩
    · simp [hphase, hbackoff]
    · simp [hphase, hbackoff]
    · simp [hphase, hbackoff]
  · intro hphase
    have htracked := hinert.mpr (by rcases hphase with hphase | hphase <;> rw [hphase] <;> decide)
    exact ⟨htracked, fun more hmore => next?_ne_outcome htracked hmore⟩
  · intro hphase
    obtain ⟨bid, before, hdeeds, hoperation, hengages⟩ :=
      hattentive.latest fun htracked => hinert.mp htracked hphase
    refine ⟨bid, before, hdeeds, hoperation, ?_⟩
    rcases hengages with ⟨k, n, hdraw, htracked, hpending⟩ | ⟨e, hdraw, htracked, hpending⟩
    · obtain ⟨s, hlive⟩ := hc.live htracked
      exact Or.inl ⟨k, n, s, hdraw, hpending, htracked, hlive⟩
    · exact Or.inr ⟨e, hdraw, hpending, htracked,
        fun more hmore => outcome?_of_failed htracked hmore⟩

end Chronicle

end

namespace Chronicle

/-- A failure to make a key, the backoff after it, and the retry that submits one. -/
theorem poised_run_retried :
    letI : Scheme := .plain
    let serve (backoff : Bool) : Loop.Turn Bool := .serve ⟨false, false, backoff⟩ 0
    let c := run hesitant false [serve false]
    let d := c.turn hesitant (serve false)
    let e := d.turn hesitant (serve true)
    (∀ more, (∀ t ∈ more, t.serves = false) → (c.extend hesitant more).loop.outcome? =
      some (.error (.keyGeneration "Cryptographic error: no entropy"))) ∧
    (d.loop.phase = .backingOff ∧ 0 < d.loop.failures ∧ d.loop.failures < 2 ∧
      ∀ more, (∀ t ∈ more, t.serves = false) → ∀ s o,
        (d.extend hesitant more).loop.next? s ≠ some (.outcome o)) ∧
    e.deeds.Live 0 ∧ e.loop.slots.pending = some (.numbered 1) := by
  let _ : Scheme := .plain
  let serve (backoff : Bool) : Loop.Turn Bool := .serve ⟨false, false, backoff⟩ 0
  have hc := poised_run hesitant false [serve false] ⟨rfl, rfl⟩
  have hd := poised_run hesitant false [serve false, serve false] ⟨rfl, rfl⟩
  have he := poised_run hesitant false [serve false, serve false, serve true] ⟨rfl, rfl⟩
  have hfailed : (run hesitant false [serve false]).loop.tracked =
      .failed (.keyGeneration "Cryptographic error: no entropy") := rfl
  have hsubmitted : (run hesitant false [serve false, serve false, serve true]).loop.tracked =
      .submitted 0 := rfl
  refine ⟨?_, ?_, ?_⟩
  · obtain ⟨bid, before, -, -, ⟨k, n, s, -, -, htracked, -⟩ | ⟨e, -, -, htracked, hout⟩⟩ :=
      hc.awaiting rfl
    · cases hfailed.symm.trans htracked
    · rw [← Tracked.failed.inj (hfailed.symm.trans htracked)] at hout
      exact hout
  · obtain ⟨hpos, hlt⟩ := hd.counted rfl
    exact ⟨rfl, hpos, hlt, (hd.resting (Or.inr rfl)).2⟩
  · obtain ⟨bid, before, -, -, ⟨k, n, s, -, -, htracked, hlive, -⟩ | ⟨e, -, -, htracked, -⟩⟩ :=
      he.awaiting rfl
    · obtain rfl := Tracked.submitted.inj (hsubmitted.symm.trans htracked)
      exact ⟨hlive, rfl⟩
    · cases hsubmitted.symm.trans htracked

end Chronicle

end Keyring
