import Keyring.Proofs.Rotation.Step
import Keyring.Proofs.SigningKey

namespace Keyring

open Rotation

namespace Loop

variable {n : UInt32}

theorem toNat_add_one (h : n.toNat + 1 < UInt32.size) : (n + 1).toNat = n.toNat + 1 := by
  rw [UInt32.toNat_add]
  exact Nat.mod_eq_of_lt h

theorem countFailure_eq (h : n.toNat + 1 < UInt32.size) : countFailure n = n + 1 := by
  apply if_neg
  rintro rfl
  exact absurd h (by decide)

theorem toNat_countFailure (h : n.toNat + 1 < UInt32.size) :
    (countFailure n).toNat = n.toNat + 1 := by
  rw [countFailure_eq h, toNat_add_one h]

theorem countFailure_pos (n : UInt32) : 0 < countFailure n := by
  rw [UInt32.lt_iff_toNat_lt]
  by_cases hn : n.toNat + 1 < UInt32.size
  · rw [toNat_countFailure hn]
    exact Nat.succ_pos _
  · have hlt := n.toNat_lt
    have hmax : n = 0xFFFFFFFF := by
      apply UInt32.toNat_inj.mp
      show n.toNat = 4294967295
      simp only [UInt32.size] at hn
      omega
    rw [hmax]
    decide

end Loop

section

variable [Scheme] {ω : Type}

/-- The failures in a row up to the one that is escalated. Even if none is allowed it takes one. -/
def Rotation.Plan.limit (p : Plan ω) : Nat := max 1 p.settings.maxAttempts.toNat

theorem Rotation.Plan.limit_lt (p : Plan ω) : p.limit < UInt32.size := by
  have hmax := p.settings.maxAttempts.toNat_lt
  simp only [Plan.limit, UInt32.size]
  omega

theorem Loop.countFailure_lt_iff (p : Plan ω) {n : UInt32} (h : n.toNat + 1 < UInt32.size) :
    countFailure n < p.settings.maxAttempts ↔ n.toNat + 1 < p.limit := by
  rw [UInt32.lt_iff_toNat_lt, toNat_countFailure h, Plan.limit]
  omega

namespace Deeds

/-- The failures that were observed since the last success. -/
def failuresInARow : Deeds → Nat
  | [] => 0
  | .observe _ (.ok _) :: _ => 0
  | .observe _ (.error _) :: ds => failuresInARow ds + 1
  | .attempt _ :: ds => failuresInARow ds
  | .cancel _ :: ds => failuresInARow ds

end Deeds

/-- How failures are counted: in a row, below the limit as long as the loop goes on, and up to it
once one was escalated. -/
structure Strict (p : Plan ω) (c : Chronicle ω) : Prop where
  failures : c.loop.failures.toNat = c.deeds.failuresInARow
  below : c.loop.ending = none → c.loop.failures.toNat < p.limit
  bounded : c.loop.failures.toNat ≤ p.limit
  silent : c.loop.ending = none → c.loop.escalated = []
  once : c.loop.escalated.length ≤ 1

namespace Strict

variable {p : Plan ω} {c : Chronicle ω}

theorem new (p : Plan ω) (world : ω) : Strict p (.new world) where
  failures := rfl
  below _ := Nat.lt_of_lt_of_le Nat.zero_lt_one (Nat.le_max_left _ _)
  bounded := Nat.zero_le _
  silent _ := rfl
  once := Nat.zero_le _

theorem fits (h : Strict p c) (hending : c.loop.ending = none) :
    c.loop.failures.toNat + 1 < UInt32.size := by
  have hbelow := h.below hending
  have hlimit := p.limit_lt
  omega

theorem keep (h : Strict p c) (hending : c.loop.ending = none) {ds : Deeds} {l : Loop ω}
    (hfailures : l.failures = c.loop.failures) (hescalated : l.escalated = c.loop.escalated)
    (hds : Deeds.failuresInARow (ds ++ c.deeds) = c.deeds.failuresInARow) :
    Strict p ⟨l, ds ++ c.deeds⟩ where
  failures := by
    rw [hds, ← h.failures, hfailures]
  below _ := by
    rw [hfailures]
    exact h.below hending
  bounded := by
    rw [hfailures]
    exact h.bounded
  silent _ := hescalated.trans (h.silent hending)
  once := by
    rw [hescalated]
    exact h.once

theorem confirm (h : Strict p c) (hending : c.loop.ending = none) {t : Tracked} {l : Loop ω}
    (hfailures : l.failures = 0) (hescalated : l.escalated = c.loop.escalated) :
    Strict p ⟨l, .observe t (.ok ()) :: c.deeds⟩ where
  failures := by
    rw [hfailures]
    rfl
  below _ := by
    rw [hfailures]
    exact Nat.lt_of_lt_of_le Nat.zero_lt_one (Nat.le_max_left _ _)
  bounded := by
    rw [hfailures]
    exact Nat.zero_le _
  silent _ := hescalated.trans (h.silent hending)
  once := by
    rw [hescalated]
    exact h.once

theorem give_up (h : Strict p c) (hending : c.loop.ending = none) {t : Tracked}
    {e : PublishError} {l : Loop ω} (hfailures : l.failures = Loop.countFailure c.loop.failures)
    (hescalated : l.escalated = e :: c.loop.escalated) (hended : l.ending ≠ none) :
    Strict p ⟨l, .observe t (.error e) :: c.deeds⟩ where
  failures := by
    rw [hfailures, Loop.toNat_countFailure (h.fits hending), h.failures]
    rfl
  below hnone := absurd hnone hended
  bounded := by
    rw [hfailures, Loop.toNat_countFailure (h.fits hending)]
    exact h.below hending
  silent hnone := absurd hnone hended
  once := by
    rw [hescalated, h.silent hending]
    exact Nat.le_refl 1

theorem refuse (h : Strict p c) (hending : c.loop.ending = none) {now : Instant} {t : Tracked}
    {e : PublishError} {l : Loop ω} (hrefusal : Loop.Refusal p now e c.loop.observing l) :
    Strict p ⟨l, .observe t (.error e) :: c.deeds⟩ := by
  have hcount := Loop.toNat_countFailure (h.fits hending)
  cases hrefusal with
  | backedOff hlt =>
      have hbelow := (Loop.countFailure_lt_iff p (h.fits hending)).mp hlt
      rw [← hcount] at hbelow
      refine ⟨?_, fun _ => hbelow, Nat.le_of_lt hbelow, fun _ => h.silent hending, h.once⟩
      exact hcount.trans (congrArg (· + 1) h.failures)
  | returned hge hescalate => exact h.give_up hending rfl rfl nofun
  | crashed hge hescalate => exact h.give_up hending rfl rfl nofun
  | exited hge hescalate => exact h.give_up hending rfl rfl nofun

theorem step {ds : Deeds} {l : Loop ω} (h : Strict p c) (hstep : Loop.Step p c.loop ds l) :
    Strict p ⟨l, ds ++ c.deeds⟩ := by
  cases hstep with
  | outside submissions world => exact ⟨h.failures, h.below, h.bounded, h.silent, h.once⟩
  | begun hnew hbid hlaunch =>
      obtain ⟨-, -, hfailures, hescalated⟩ := hlaunch.keeps
      exact h.keep (by rw [hnew]; rfl) hfailures hescalated rfl
  | halted hrunning => exact h.keep hrunning.2 rfl rfl rfl
  | rotated hrunning hlaunch =>
      obtain ⟨-, -, hfailures, hescalated⟩ := hlaunch.keeps
      exact h.keep hrunning.2 hfailures hescalated rfl
  | retried hrunning hphase hlaunch =>
      obtain ⟨-, -, hfailures, hescalated⟩ := hlaunch.keeps
      exact h.keep hrunning.2 hfailures hescalated rfl
  | confirmed hrunning hphase hout => exact h.confirm hrunning.2 rfl rfl
  | refused hrunning hphase hout hrefusal => exact h.refuse hrunning.2 hrefusal

theorem run (p : Plan ω) (world : ω) (turns : List (Loop.Turn ω)) :
    Strict p (.run p world turns) :=
  Chronicle.step_induction (new p world) (fun _ _ _ _ hstep h => h.step hstep) turns

/-- What holds of a new loop and is kept by every step of one that counts like this holds all along
a run. -/
theorem induction {P : Chronicle ω → Prop} {world : ω} (hnew : P (.new world))
    (hstep : ∀ c ds l, Strict p c → Loop.Step p c.loop ds l → P c → P ⟨l, ds ++ c.deeds⟩)
    (turns : List (Loop.Turn ω)) : P (.run p world turns) := by
  have h : Strict p (.run p world turns) ∧ P (.run p world turns) := by
    apply Chronicle.step_induction (P := fun c => Strict p c ∧ P c)
    · exact ⟨new p world, hnew⟩
    · rintro c ds l - hds ⟨hstrict, hc⟩
      exact ⟨hstrict.step hds, hstep c ds l hstrict hds hc⟩
  exact h.2

end Strict

namespace Loop

variable {p : Plan ω} {l l' : Loop ω} {ds : Deeds}

theorem Step.told_failures (h : Step p l ds l') : ∃ told, l'.statuses = told ++ l.statuses ∧
    ∀ status ∈ told, status.failures = l'.failures := by
  obtain ⟨told, htold, hstatuses⟩ := h.told
  refine ⟨told, htold, ?_⟩
  intro status hstatus
  rcases hstatuses status hstatus with rfl | ⟨rfl, hfailures⟩
  · rfl
  · exact hfailures.symm

/-- A failure that is observed is all that is done in its step. -/
theorem Step.of_failure {t : Tracked} {e : PublishError}
    (h : Step p l [.observe t (.error e)] l') :
    l.Running ∧ ∃ now, Refusal p now e l.observing l' := by
  cases h with
  | refused hrunning hphase hout hrefusal => exact ⟨hrunning, _, hrefusal⟩

theorem Refusal.of_lt {now : Instant} {e : PublishError} (h : Refusal p now e l l')
    (hlt : countFailure l.failures < p.settings.maxAttempts) :
    l'.phase = .backingOff ∧ l'.ending = l.ending ∧ l'.escalated = l.escalated := by
  cases h with
  | backedOff _ => exact ⟨rfl, rfl, rfl⟩
  | returned hge hescalate => exact absurd hlt hge
  | crashed hge hescalate => exact absurd hlt hge
  | exited hge hescalate => exact absurd hlt hge

theorem Refusal.of_not_lt {now : Instant} {e : PublishError} (h : Refusal p now e l l')
    (hge : ¬ countFailure l.failures < p.settings.maxAttempts) :
    l'.escalated = e :: l.escalated ∧ l'.slots = l.slots ∧ l'.ending ≠ none ∧
      (p.world.escalate e = .returns → l'.phase = .failed ∧ l'.ending = some .finished) := by
  cases h with
  | backedOff hlt => exact absurd hlt hge
  | returned _ hescalate => exact ⟨rfl, rfl, nofun, fun _ => ⟨rfl, rfl⟩⟩
  | crashed _ hescalate =>
      refine ⟨rfl, rfl, nofun, ?_⟩
      intro hreturns
      rw [hescalate] at hreturns
      cases hreturns
  | exited _ hescalate =>
      refine ⟨rfl, rfl, nofun, ?_⟩
      intro hreturns
      rw [hescalate] at hreturns
      cases hreturns

/-- A failure is escalated only when it is observed. -/
theorem Step.escalated_cases (h : Step p l ds l') : l'.escalated = l.escalated ∨
    ∃ t e, ds = [.observe t (.error e)] ∧ l'.escalated = e :: l.escalated := by
  cases h with
  | outside submissions world => exact Or.inl rfl
  | begun hnew hbid hlaunch => exact Or.inl hlaunch.keeps.2.2.2
  | halted hrunning => exact Or.inl rfl
  | rotated hrunning hlaunch => exact Or.inl hlaunch.keeps.2.2.2
  | retried hrunning hphase hlaunch => exact Or.inl hlaunch.keeps.2.2.2
  | confirmed hrunning hphase hout => exact Or.inl rfl
  | refused hrunning hphase hout hrefusal =>
      cases hrefusal with
      | backedOff hlt => exact Or.inl rfl
      | returned hge hescalate => exact Or.inr ⟨_, _, rfl, rfl⟩
      | crashed hge hescalate => exact Or.inr ⟨_, _, rfl, rfl⟩
      | exited hge hescalate => exact Or.inr ⟨_, _, rfl, rfl⟩

end Loop

namespace Strict

theorem told_run (p : Plan ω) (world : ω) (turns : List (Loop.Turn ω)) :
    ∀ status ∈ (Chronicle.run p world turns).loop.statuses, status.failures.toNat ≤ p.limit := by
  apply Strict.induction
    (P := fun c => ∀ status ∈ c.loop.statuses, status.failures.toNat ≤ p.limit)
  · exact nofun
  · intro c ds l hstrict hstep hstatuses status hstatus
    obtain ⟨told, htold, hfailures⟩ := hstep.told_failures
    rw [htold] at hstatus
    rcases List.mem_append.mp hstatus with hmem | hmem
    · rw [hfailures status hmem]
      exact (hstrict.step hstep).bounded
    · exact hstatuses status hmem

section

variable {p : Plan ω} {c : Chronicle ω} {now : Instant} {e : PublishError} {l : Loop ω}

theorem below_limit (h : Strict p c) (hending : c.loop.ending = none)
    (hrefusal : Loop.Refusal p now e c.loop.observing l)
    (hlt : c.loop.failures.toNat + 1 < p.limit) :
    l.phase = .backingOff ∧ l.ending = none ∧ l.escalated = [] := by
  have hcount := (Loop.countFailure_lt_iff p (h.fits hending)).mpr hlt
  obtain ⟨hphase, hgoes, hescalated⟩ := hrefusal.of_lt hcount
  exact ⟨hphase, hgoes.trans hending, hescalated.trans (h.silent hending)⟩

theorem at_limit (h : Strict p c) (hending : c.loop.ending = none)
    (hrefusal : Loop.Refusal p now e c.loop.observing l)
    (hle : p.limit ≤ c.loop.failures.toNat + 1) :
    l.escalated = [e] ∧ l.slots = c.loop.slots ∧ l.hasEnded = true ∧
      (p.world.escalate e = .returns → l.phase = .failed ∧ l.ending = some .finished) := by
  have hlimit := Loop.countFailure_lt_iff p (h.fits hending)
  obtain ⟨hescalated, hslots, hended, hreturns⟩ :=
    hrefusal.of_not_lt fun hlt => Nat.not_lt_of_le hle (hlimit.mp hlt)
  refine ⟨?_, hslots, Option.isSome_iff_ne_none.mpr hended, hreturns⟩
  exact hescalated.trans (congrArg (e :: ·) (h.silent hending))

end

theorem failuresInARow_of_failure {p : Plan ω} {c : Chronicle ω} (h : Strict p c) {ds : Deeds}
    {t : Tracked} {e : PublishError} (hds : ds = .observe t (.error e) :: c.deeds) :
    ds.failuresInARow = c.loop.failures.toNat + 1 := by
  rw [hds, h.failures]
  rfl

end Strict

namespace Chronicle

/-- Every status that is told tells how many failures were observed since the last success. A
failure below the limit makes the loop wait to try again. One at the limit, and no other, is
escalated, as it is and once only; the loop ends with it, keeps both keys and does nothing more. It
ends as failed if whoever it was escalated to lets it. The count never comes to its bound. -/
theorem fail_stop (p : Plan ω) (world : ω) (turns : List (Loop.Turn ω)) :
    let c := run p world turns
    (∀ t, ∃ told, (c.turn p t).loop.statuses = told ++ c.loop.statuses ∧
      ∀ status ∈ told, status.failures.toNat = (c.turn p t).deeds.failuresInARow) ∧
    (∀ t tracked e, (c.turn p t).deeds = .observe tracked (.error e) :: c.deeds →
      let d := c.turn p t
      (d.deeds.failuresInARow < p.limit →
        d.loop.phase = .backingOff ∧ d.loop.ending = none ∧ d.loop.escalated = []) ∧
      (p.limit ≤ d.deeds.failuresInARow →
        d.loop.escalated = [e] ∧ d.loop.slots = c.loop.slots ∧ d.loop.hasEnded = true ∧
        (p.world.escalate e = .returns →
          d.loop.phase = .failed ∧ d.loop.ending = some .finished) ∧
        ∀ more, (d.extend p more).deeds = d.deeds ∧ (d.extend p more).loop.slots = d.loop.slots ∧
          (d.extend p more).loop.escalated = d.loop.escalated ∧
          (d.extend p more).loop.statuses = d.loop.statuses)) ∧
    (∀ t, (c.turn p t).loop.escalated ≠ c.loop.escalated →
      ∃ tracked e, (c.turn p t).deeds = .observe tracked (.error e) :: c.deeds ∧
        p.limit ≤ (c.turn p t).deeds.failuresInARow) ∧
    c.loop.escalated.length ≤ 1 ∧
    c.loop.failures.toNat ≤ p.limit ∧
    (∀ status ∈ c.loop.statuses, status.failures.toNat ≤ p.limit) ∧
    (c.loop.ending = none →
      (Loop.countFailure c.loop.failures).toNat = c.loop.failures.toNat + 1 ∧
      (c.loop.failures + 1).toNat = c.loop.failures.toNat + 1) := by
  intro c
  have hc : Strict p c := Strict.run p world turns
  have hsteps : ∀ t, ∃ ds, Loop.Step p c.loop ds (c.turn p t).loop ∧
      (c.turn p t).deeds = ds ++ c.deeds := step_turn_run p world turns
  refine ⟨?_, ?_, ?_, hc.once, hc.bounded, Strict.told_run p world turns, ?_⟩
  · intro t
    obtain ⟨ds, hstep, hdeeds⟩ := hsteps t
    obtain ⟨told, htold, hfailures⟩ := hstep.told_failures
    refine ⟨told, htold, ?_⟩
    intro status hstatus
    rw [hfailures status hstatus, hdeeds]
    exact (hc.step hstep).failures
  · intro t tracked e hobserved d
    obtain ⟨ds, hstep, hdeeds⟩ := hsteps t
    obtain rfl : ds = [.observe tracked (.error e)] :=
      List.append_cancel_right (hdeeds.symm.trans hobserved)
    obtain ⟨⟨hstarted, hending⟩, now, hrefusal⟩ := hstep.of_failure
    have hcount : d.deeds.failuresInARow = c.loop.failures.toNat + 1 :=
      hc.failuresInARow_of_failure hobserved
    rw [hcount]
    refine ⟨hc.below_limit hending hrefusal, ?_⟩
    intro hle
    obtain ⟨hescalated, hslots, hended, hreturns⟩ := hc.at_limit hending hrefusal hle
    refine ⟨hescalated, hslots, hended, hreturns, ?_⟩
    intro more
    obtain ⟨submissions, world', heq⟩ :=
      extend_of_ended p (hstep.started hstarted) (Option.isSome_iff_ne_none.mp hended) more
    rw [heq]
    exact ⟨rfl, rfl, rfl, rfl⟩
  · intro t hne
    obtain ⟨ds, hstep, hdeeds⟩ := hsteps t
    rcases hstep.escalated_cases with hsame | ⟨tracked, e, rfl, hescalated⟩
    · exact absurd hsame hne
    · refine ⟨tracked, e, hdeeds, ?_⟩
      obtain ⟨⟨hstarted, hending⟩, now, hrefusal⟩ := hstep.of_failure
      rw [hc.failuresInARow_of_failure hdeeds]
      apply Nat.le_of_not_lt
      intro hlt
      have hsilent := (hc.below_limit hending hrefusal hlt).2.2
      exact hne (hsilent.trans (hc.silent hending).symm)
  · intro hending
    exact ⟨Loop.toNat_countFailure (hc.fits hending), Loop.toNat_add_one (hc.fits hending)⟩

end Chronicle

end

namespace Chronicle

/-- A plan that is never given a key. -/
def barren [Scheme] (maxAttempts : UInt32) : Plan Unit where
  settings := { Settings.new "issuer" "endpoint" with maxAttempts }
  world := {
    draw := fun _ => (.failed (.crypto "no entropy"), ())
    publish := fun _ _ _ _ => (.accepted none, ())
    escalate := fun _ => .returns }
  startedAt := 0

theorem fail_stop_second_failure :
    letI : Scheme := .plain
    let serve (backoff : Bool) : Loop.Turn Unit := .serve ⟨false, false, backoff⟩ 0
    let c := run (barren 2) () [serve false, serve false, serve true]
    let d := c.turn (barren 2) (serve false)
    c.loop.statuses.map (·.failures) = [1, 1, 0, 0] ∧
      d.loop.escalated = [.keyGeneration "Cryptographic error: no entropy"] ∧
      d.loop.phase = .failed := by
  let _ : Scheme := .plain
  have h := (fail_stop (barren 2) () [.serve ⟨false, false, false⟩ 0,
    .serve ⟨false, false, false⟩ 0, .serve ⟨false, false, true⟩ 0]).2.1
    (.serve ⟨false, false, false⟩ 0) _ _ rfl
  obtain ⟨hescalated, -, -, hreturns, -⟩ := h.2 (by decide +kernel)
  exact ⟨by decide +kernel, hescalated, (hreturns rfl).1⟩

end Chronicle

end Keyring
