import Keyring.Proofs.Rotation.FailStop
import Keyring.Proofs.Rotation.Statuses
import Keyring.Proofs.Rotation.Stop

namespace Keyring

open Rotation

section

variable [Scheme] {ω : Type}

/-- An attempt that crashed: the source of keys did, or the key server that it was handed to. -/
def Deed.crashes : Deed → Bool
  | .attempt bid => bid.operation.isNone
  | _ => false

namespace Chronicle

/-- An attempt crashed, or whoever a failure was escalated to did not return. -/
def CutOff (p : Plan ω) (c : Chronicle ω) : Prop :=
  c.deeds.any Deed.crashes = true ∨ ∃ e ∈ c.loop.escalated, p.world.escalate e ≠ .returns

theorem cutOff_of_kept {p : Plan ω} {l l' : Loop ω} {ds deeds : Deeds}
    (h : ¬ CutOff p ⟨l, deeds⟩) (hescalated : l'.escalated = l.escalated) :
    CutOff p ⟨l', ds ++ deeds⟩ ↔ ds.any Deed.crashes = true := by
  simp only [CutOff, hescalated, List.any_append, Bool.or_eq_true, or_assoc] at h ⊢
  exact or_iff_left h

theorem cutOff_of_escalated {p : Plan ω} {l l' : Loop ω} {d : Deed} {deeds : Deeds}
    {e : PublishError} (h : ¬ CutOff p ⟨l, deeds⟩) (hescalated : l'.escalated = e :: l.escalated)
    (hd : d.crashes = false) :
    CutOff p ⟨l', [d] ++ deeds⟩ ↔ p.world.escalate e ≠ .returns := by
  simp only [CutOff, not_or] at h
  simp only [CutOff, hescalated, List.any_append, List.any_cons, hd, h.1, List.exists_mem_cons_iff,
    or_iff_left h.2]
  simp

end Chronicle

namespace Loop

variable {p : Plan ω} {l l' : Loop ω} {ds deeds : Deeds}

/-- The loop ended before it could finish. -/
def Severed (l : Loop ω) : Prop := ∃ ending, l.ending = some ending ∧ ending ≠ .finished

theorem not_severed_of_none (h : l.ending = none) : ¬ l.Severed := by
  rintro ⟨ending, hsome, -⟩
  rw [h] at hsome
  cases hsome

theorem not_severed_of_finished (h : l.ending = some .finished) : ¬ l.Severed := by
  rintro ⟨ending, hsome, hne⟩
  rw [h] at hsome
  exact hne (Option.some.inj hsome).symm

theorem not_finished (h : l.ending = none) : l.ending ≠ some .finished := by
  rw [h]
  exact nofun

theorem Launch.severed_iff {w : World ω} {trigger : Trigger} {bid : Bid}
    (h : Launch w trigger l bid l') (hending : l.ending = none) :
    (Deed.attempt bid).crashes = true ↔ l'.Severed := by
  rcases h.operation with ⟨hnone, text, hcrashed⟩ | ⟨hsome, hsame⟩
  · exact iff_of_true (by rw [Deed.crashes, hnone]; rfl) ⟨_, hcrashed, nofun⟩
  · exact iff_of_false (by simp [Deed.crashes, hsome]) (not_severed_of_none (hsame.trans hending))

theorem Launch.cutOff {w : World ω} {trigger : Trigger} {before : Loop ω} {bid : Bid}
    (h : Launch w trigger before bid l') (hending : before.ending = none)
    (hescalated : before.escalated = l.escalated) (hnot : ¬ Chronicle.CutOff p ⟨l, deeds⟩)
    (hds : ds.any Deed.crashes = false) :
    Chronicle.CutOff p ⟨l', .attempt bid :: ds ++ deeds⟩ ↔ l'.Severed := by
  refine (Chronicle.cutOff_of_kept hnot (h.keeps.2.2.2.trans hescalated)).trans ?_
  rw [List.any_cons, hds, Bool.or_false]
  exact h.severed_iff hending

theorem Step.cutOff (h : Step p l ds l') (hl : Chronicle.CutOff p ⟨l, deeds⟩ ↔ l.Severed) :
    Chronicle.CutOff p ⟨l', ds ++ deeds⟩ ↔ l'.Severed := by
  have hnot (hending : l.ending = none) : ¬ Chronicle.CutOff p ⟨l, deeds⟩ :=
    fun hcut => not_severed_of_none hending (hl.mp hcut)
  cases h with
  | outside submissions world => exact hl
  | begun hnew hbid hlaunch =>
      have hending : l.ending = none := by rw [hnew]; rfl
      have hlaunched : Chronicle.CutOff p ⟨_, [.attempt _] ++ deeds⟩ ↔ _ :=
        hlaunch.cutOff hending rfl (hnot hending) rfl
      exact hlaunched
  | halted hrunning =>
      refine (Chronicle.cutOff_of_kept (hnot hrunning.2) rfl).trans ?_
      exact iff_of_false Bool.false_ne_true (not_severed_of_finished rfl)
  | rotated hrunning hlaunch => exact hlaunch.cutOff hrunning.2 rfl (hnot hrunning.2) rfl
  | retried hrunning hphase hlaunch =>
      exact hlaunch.cutOff hrunning.2 rfl (hnot hrunning.2) rfl
  | confirmed hrunning hphase hout =>
      refine (Chronicle.cutOff_of_kept (hnot hrunning.2) rfl).trans ?_
      exact iff_of_false Bool.false_ne_true (not_severed_of_none hrunning.2)
  | refused hrunning hphase hout hrefusal =>
      cases hrefusal with
      | backedOff hlt =>
          refine (Chronicle.cutOff_of_kept (hnot hrunning.2) rfl).trans ?_
          exact iff_of_false Bool.false_ne_true (not_severed_of_none hrunning.2)
      | returned hge hescalate =>
          refine (Chronicle.cutOff_of_escalated (hnot hrunning.2) rfl rfl).trans ?_
          exact iff_of_false (absurd hescalate) (not_severed_of_finished rfl)
      | crashed hge hescalate =>
          refine (Chronicle.cutOff_of_escalated (hnot hrunning.2) rfl rfl).trans ?_
          exact iff_of_true (by rw [hescalate]; nofun) ⟨_, rfl, nofun⟩
      | exited hge hescalate =>
          refine (Chronicle.cutOff_of_escalated (hnot hrunning.2) rfl rfl).trans ?_
          exact iff_of_true (by rw [hescalate]; nofun) ⟨_, rfl, nofun⟩

theorem Launch.visible {w : World ω} {trigger : Trigger} {bid : Bid}
    (h : Launch w trigger l bid l') (hending : l.ending = none)
    (hl : ¬ l.status.phase.isTerminal = true) :
    l'.status.phase.isTerminal = true ↔ l'.ending = some .finished := by
  apply iff_of_false _ (h.goes_on hending)
  rcases h.told with ⟨-, hsame⟩ | ⟨-, hphase, htold⟩
  · rw [status, hsame]
    exact hl
  · rw [status, htold]
    show ¬ l'.phase.isTerminal = true
    rw [hphase]
    exact Bool.false_ne_true

/-- A loop tells that it is over when it finishes, and at no other time. -/
theorem Step.visible (h : Step p l ds l')
    (hl : l.status.phase.isTerminal = true ↔ l.ending = some .finished) :
    l'.status.phase.isTerminal = true ↔ l'.ending = some .finished := by
  have hnot (hrunning : l.Running) : ¬ l.status.phase.isTerminal = true := by
    rw [hl]
    exact not_finished hrunning.2
  cases h with
  | outside submissions world => exact hl
  | begun hnew hbid hlaunch =>
      have hending : l.ending = none := by rw [hnew]; rfl
      exact hlaunch.visible hending Bool.false_ne_true
  | halted hrunning => exact iff_of_true rfl rfl
  | rotated hrunning hlaunch => exact hlaunch.visible hrunning.2 (hnot hrunning)
  | retried hrunning hphase hlaunch => exact hlaunch.visible hrunning.2 (hnot hrunning)
  | confirmed hrunning hphase hout =>
      exact iff_of_false Bool.false_ne_true (not_finished hrunning.2)
  | refused hrunning hphase hout hrefusal =>
      cases hrefusal with
      | backedOff hlt =>
          exact iff_of_false Bool.false_ne_true (not_finished hrunning.2)
      | returned hge hescalate => exact iff_of_true rfl rfl
      | crashed hge hescalate => exact iff_of_false (hnot hrunning) nofun
      | exited hge hescalate => exact iff_of_false (hnot hrunning) nofun

end Loop

namespace Chronicle

theorem severed_run (p : Plan ω) (world : ω) (turns : List (Loop.Turn ω)) :
    CutOff p (run p world turns) ↔ (run p world turns).loop.Severed :=
  step_induction (P := fun c => CutOff p c ↔ c.loop.Severed)
    (iff_of_false (by simp [CutOff, new, Loop.new]) (Loop.not_severed_of_none rfl))
    (fun _ _ _ _ hstep h => hstep.cutOff h) turns

theorem visible_run (p : Plan ω) (world : ω) (turns : List (Loop.Turn ω)) :
    (run p world turns).loop.status.phase.isTerminal = true ↔
      (run p world turns).loop.ending = some .finished :=
  step_induction (P := fun c => c.loop.status.phase.isTerminal = true ↔
      c.loop.ending = some .finished)
    (iff_of_false Bool.false_ne_true (Loop.not_finished rfl))
    (fun _ _ _ _ hstep h => hstep.visible h) turns

/-- The latest status tells that the loop is over exactly if it has ended and was not cut off. -/
theorem ended_visibly_iff (p : Plan ω) (world : ω) (turns : List (Loop.Turn ω)) :
    let c := run p world turns
    c.loop.status.phase.isTerminal = true ↔ c.loop.hasEnded = true ∧ ¬ CutOff p c := by
  intro c
  rw [severed_run p world turns, visible_run p world turns]
  constructor
  · intro hfinished
    exact ⟨by rw [Loop.hasEnded, hfinished]; rfl, Loop.not_severed_of_finished hfinished⟩
  · rintro ⟨hended, hnot⟩
    obtain ⟨ending, hending⟩ := Option.isSome_iff_exists.mp hended
    rw [hending]
    by_contra hne
    exact hnot ⟨ending, hending, fun h => hne (congrArg some h)⟩

end Chronicle

end

namespace Chronicle

/-- A plan that is never given a key, and whose first failure crashes those it is escalated to. -/
def doomed [Scheme] : Plan Unit := { barren 1 with
  world := { (barren 1).world with escalate := fun _ => .crashes "boom" } }

/-- The loop has ended, and still it tells that a publication is awaited. -/
theorem ended_unseen :
    letI : Scheme := .plain
    let c := run doomed () [.serve ⟨false, false, false⟩ 0, .serve ⟨false, false, false⟩ 0]
    c.loop.hasEnded = true ∧ ¬ c.loop.status.phase.isTerminal = true ∧
      c.loop.status.phase = .awaiting := by
  decide +kernel

end Chronicle

end Keyring
