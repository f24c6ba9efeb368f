import Keyring.Proofs.Rotation.Run
import Keyring.Trial

namespace Keyring

open Rotation

variable [Scheme] {γ : Type}

namespace Trial

inductive Turn
  | serve (s : Signals) (now : Instant)
  | complete (i : Nat) (outcome : Outcome)

/-- All that is fixed before a trial begins. -/
structure Setup (γ : Type) where
  settings : Settings
  draw : γ → Draw × γ
  crashing : List Nat
  escalate : PublishError → Escalation
  startedAt : Int
  generator : γ
  script : List Server.Verdict
  otherwise : Server.Verdict

variable {draw : γ → Draw × γ} {crashing : List Nat} {escalate : PublishError → Escalation}
  {t t' : Trial γ} {key : Jwk} {signer : SigningKey} {submissions : Submissions}

theorem server_draw : ((world draw crashing escalate).draw t).2.server = t.server := rfl

theorem publish_crashed {text : String}
    (h : (world draw crashing escalate).publish key signer submissions t = (.crashed text, t')) :
    t'.server = t.server := by
  simp only [world, publish] at h
  split at h
  · cases h
    rfl
  · cases h

theorem publish_accepted {outcome : Option Outcome}
    (h : (world draw crashing escalate).publish key signer submissions t =
      (.accepted outcome, t')) :
    outcome = t.server.verdict.outcome? ∧
      t'.server = (t.server.publish key signer submissions).2 := by
  simp only [world, publish] at h
  split at h
  · cases h
  · cases h
    exact ⟨rfl, rfl⟩

end Trial

namespace Trial.Setup

def plan (u : Setup γ) : Plan (Trial γ) where
  settings := u.settings
  world := Trial.world u.draw u.crashing u.escalate
  startedAt := u.startedAt

def trial (u : Setup γ) : Trial γ := ⟨u.generator, Server.new u.script u.otherwise⟩

def turn (u : Setup γ) (c : Chronicle (Trial γ)) : Turn → Chronicle (Trial γ)
  | .serve s now => c.serve u.plan s now
  | .complete i outcome => { c with loop := (c.loop.complete i outcome).2 }

def run (u : Setup γ) (turns : List Turn) : Chronicle (Trial γ) :=
  turns.foldl u.turn (.new u.trial)

/-- The loop sees of a turn of its trial what it can see anywhere. -/
theorem exists_extend_turn (u : Setup γ) (c : Chronicle (Trial γ)) (t : Turn) :
    ∃ turns, u.turn c t = c.extend u.plan turns := by
  cases t with
  | serve s now => exact ⟨[.serve s now], rfl⟩
  | complete i outcome =>
      by_cases hheld : c.loop.world.server.held.contains i = true
      · refine ⟨[.report i outcome, .elapse (c.loop.complete i outcome).2.world], ?_⟩
        simp only [turn, Loop.complete, Server.complete, hheld, if_true]
        rfl
      · refine ⟨[], ?_⟩
        simp only [turn, Loop.complete, Server.complete, hheld]
        rfl

theorem sound_turn (u : Setup γ) {c : Chronicle (Trial γ)} (h : c.Sound) (t : Turn) :
    (u.turn c t).Sound := by
  obtain ⟨turns, heq⟩ := u.exists_extend_turn c t
  rw [heq]
  exact Chronicle.sound_extend u.plan h turns

theorem run_induction {u : Setup γ} {P : Chronicle (Trial γ) → Prop} (hnew : P (.new u.trial))
    (hturn : ∀ c t, c.Sound → P c → P (u.turn c t)) (turns : List Turn) : P (u.run turns) := by
  have h : ∀ c : Chronicle (Trial γ), c.Sound → P c → P (turns.foldl u.turn c) := by
    induction turns with
    | nil => exact fun c _ hc => hc
    | cons t turns ih =>
        intro c hsound hc
        exact ih _ (u.sound_turn hsound t) (hturn c t hsound hc)
  exact h _ (Chronicle.sound_new u.trial) hnew

theorem sound_run (u : Setup γ) (turns : List Turn) : (u.run turns).Sound :=
  run_induction (Chronicle.sound_new u.trial) (fun _ t hc _ => u.sound_turn hc t) turns

end Trial.Setup

end Keyring
