import Keyring.Proofs.Rotation.Stop
import Mathlib.Data.List.Chain

namespace Keyring

open Rotation

namespace Rotation

/-- The phases that may be told next. -/
def Phase.successors : Phase → List Phase
  | .bootstrapping => [.awaiting]
  | .awaiting => [.awaiting, .idle, .backingOff, .stopped, .failed]
  | .idle => [.awaiting, .stopped]
  | .backingOff => [.awaiting, .stopped]
  | .stopped => []
  | .failed => []

/-- What a status may tell after another one. With a success, and only then, the waiting key comes
into use and is counted; a key comes to wait only with a new attempt. -/
structure Status.Follows (new old : Status) : Prop where
  phase : new.phase ∈ old.phase.successors
  confirmed : new.phase = .idle → old.pending ≠ none ∧ new.active = old.pending ∧
    new.pending = none ∧ new.completed = old.completed + 1 ∧ new.failures = 0
  kept : new.phase ≠ .idle → new.active = old.active ∧ new.completed = old.completed
  waiting : new.phase ≠ .awaiting → new.phase ≠ .idle → new.pending = old.pending

end Rotation

theorem Stance.mem_successors {phase : Phase} {tracked : Tracked} {backoff : Option Instant}
    {next : Phase} (h : Stance true phase tracked backoff none)
    (hnext : next = .awaiting ∨ next = .stopped) : next ∈ phase.successors := by
  cases h with
  | awaiting ht => rcases hnext with rfl | rfl <;> decide
  | idle => rcases hnext with rfl | rfl <;> decide
  | backingOff deadline => rcases hnext with rfl | rfl <;> decide

theorem Stance.not_terminal {phase : Phase} {tracked : Tracked} {backoff : Option Instant}
    (h : Stance true phase tracked backoff none) : ¬ phase.isTerminal = true := by
  cases h <;> nofun

section

variable [Scheme] {ω : Type}

namespace Deeds

/-- The key that waits for its confirmation: that of the latest attempt, if one was made for it, and
if it has not been confirmed. -/
def candidate : Deeds → Option SigningKey
  | [] => none
  | .attempt bid :: ds =>
      match bid.draw with
      | .key k => some k
      | .failed _ => none
      | .crashed _ => candidate ds
  | .observe _ (.ok _) :: _ => none
  | .observe _ (.error _) :: ds => candidate ds
  | .cancel _ :: ds => candidate ds

end Deeds

namespace Loop

theorem Launch.pending {w : World ω} {trigger : Trigger} {l l' : Loop ω} {bid : Bid} {ds : Deeds}
    (h : Launch w trigger l bid l') (hpending : l.slots.pending = ds.candidate) :
    l'.slots.pending = Deeds.candidate (.attempt bid :: ds) := by
  cases h with
  | undrawn hdraw => exact hpending
  | failed hdraw => rfl
  | crashed hdraw hpublish => rfl
  | accepted hdraw hpublish => rfl

theorem snapshot_follows {l l' : Loop ω} (hphase : l'.phase ∈ l.phase.successors)
    (hne : l'.phase ≠ .idle) (hactive : l'.slots.active = l.slots.active)
    (hcompleted : l'.completed = l.completed)
    (hpending : l'.phase = .awaiting ∨ l'.slots.pending = l.slots.pending) :
    l'.snapshot.Follows l.snapshot where
  phase := hphase
  confirmed h := absurd h hne
  kept _ := ⟨congrArg (Option.map SigningKey.id) hactive, hcompleted⟩
  waiting hnot _ := by
    rcases hpending with hphase | hsame
    · exact absurd hphase hnot
    · exact congrArg (Option.map SigningKey.id) hsame

end Loop

/-- The statuses so far tell the truth, the latest one about what the loop is now. -/
structure Truthful (c : Chronicle ω) : Prop where
  begun : c.loop.started = true → ∃ later, c.loop.statuses = later ++ [.initial]
  path : c.loop.statuses.IsChain Status.Follows
  served : ∀ status ∈ c.loop.statuses, status.active = none ↔ status.completed = 0
  current : c.loop.started = true → c.loop.ending = none ∨ c.loop.ending = some .finished →
    c.loop.statuses.head? = some c.loop.snapshot
  active : c.loop.slots.active = none ↔ c.loop.completed = 0
  pending : c.loop.slots.pending = c.deeds.candidate

namespace Truthful

variable {p : Plan ω} {c : Chronicle ω} {ds : Deeds} {l : Loop ω}

theorem new (world : ω) : Truthful (.new world) where
  begun h := by cases h
  path := .nil
  served := nofun
  current h := by cases h
  active := ⟨fun _ => rfl, fun _ => rfl⟩
  pending := rfl

theorem tell (h : Truthful c) (hrunning : c.loop.Running)
    (htold : l.statuses = l.snapshot :: c.loop.statuses)
    (hfollows : l.snapshot.Follows c.loop.snapshot)
    (hactive : l.slots.active = none ↔ l.completed = 0)
    (hpending : l.slots.pending = Deeds.candidate (ds ++ c.deeds)) :
    Truthful ⟨l, ds ++ c.deeds⟩ where
  begun _ := by
    obtain ⟨later, hlater⟩ := h.begun hrunning.1
    exact ⟨l.snapshot :: later, by rw [htold, hlater, List.cons_append]⟩
  path := by
    rw [htold]
    apply h.path.cons
    intro status hstatus
    rw [h.current hrunning.1 (Or.inl hrunning.2)] at hstatus
    rw [← Option.some.inj hstatus]
    exact hfollows
  served status hstatus := by
    rw [htold] at hstatus
    rcases List.mem_cons.mp hstatus with rfl | hmem
    · exact Option.map_eq_none_iff.trans hactive
    · exact h.served status hmem
  current _ _ := by
    rw [htold]
    rfl
  active := hactive
  pending := hpending

/-- A loop that is cut off says nothing about it. -/
theorem cut (h : Truthful c) (hrunning : c.loop.Running)
    (htold : l.statuses = c.loop.statuses)
    (hended : ∃ ending, l.ending = some ending ∧ ending ≠ .finished)
    (hactive : l.slots.active = none ↔ l.completed = 0)
    (hpending : l.slots.pending = Deeds.candidate (ds ++ c.deeds)) :
    Truthful ⟨l, ds ++ c.deeds⟩ where
  begun _ := by
    rw [htold]
    exact h.begun hrunning.1
  path := htold ▸ h.path
  served := htold ▸ h.served
  current _ hending := by
    obtain ⟨ending, heq, hne⟩ := hended
    rw [heq] at hending
    rcases hending with hnone | hfinished
    · cases hnone
    · exact absurd (Option.some.inj hfinished) hne
  active := hactive
  pending := hpending

theorem starting (h : Truthful c) {world : ω} (hnew : c.loop = .new world) :
    Truthful ⟨c.loop.starting p, c.deeds⟩ where
  begun _ := ⟨[], by rw [hnew]; rfl⟩
  path := by
    rw [hnew]
    exact .singleton _
  served status hstatus := by
    rw [hnew] at hstatus
    rw [List.mem_singleton.mp hstatus]
    exact ⟨fun _ => rfl, fun _ => rfl⟩
  current _ _ := by
    rw [hnew]
    rfl
  active := h.active
  pending := h.pending

theorem launch (h : Truthful c) (ds : Deeds) (hrunning : c.loop.Running)
    (hnext : .awaiting ∈ c.loop.phase.successors) {w : World ω} {trigger : Trigger}
    {l' : Loop ω} {bid : Bid} (hlaunch : Loop.Launch w trigger l bid l')
    (htold : l.statuses = c.loop.statuses) (hslots : l.slots = c.loop.slots)
    (hcompleted : l.completed = c.loop.completed)
    (hds : Deeds.candidate (ds ++ c.deeds) = c.deeds.candidate) :
    Truthful ⟨l', (.attempt bid :: ds) ++ c.deeds⟩ := by
  obtain ⟨hactive, hcount, -, -⟩ := hlaunch.keeps
  rw [hslots] at hactive
  rw [hcompleted] at hcount
  have hserved : l'.slots.active = none ↔ l'.completed = 0 := by
    rw [hactive, hcount]
    exact h.active
  have hpending : l'.slots.pending = Deeds.candidate (.attempt bid :: ds ++ c.deeds) := by
    apply hlaunch.pending
    rw [hslots]
    exact h.pending.trans hds.symm
  rcases hlaunch.told with ⟨⟨text, hcrashed⟩, hsame⟩ | ⟨-, hphase, hmore⟩
  · exact h.cut hrunning (hsame.trans htold) ⟨_, hcrashed, nofun⟩ hserved hpending
  · rw [← hphase] at hnext
    have hfollows : l'.snapshot.Follows c.loop.snapshot :=
      Loop.snapshot_follows hnext (by rw [hphase]; nofun) hactive hcount (Or.inl hphase)
    exact h.tell hrunning (hmore.trans (by rw [htold])) hfollows hserved hpending

theorem refuse (h : Truthful c) (hrunning : c.loop.Running) (hphase : c.loop.phase = .awaiting)
    {now : Instant} {t : Tracked} {e : PublishError}
    (hrefusal : Loop.Refusal p now e c.loop.observing l) :
    Truthful ⟨l, [.observe t (.error e)] ++ c.deeds⟩ := by
  have hnext : ∀ next, next = .backingOff ∨ next = .failed → next ∈ c.loop.phase.successors := by
    rw [hphase]
    rintro next (rfl | rfl) <;> decide
  cases hrefusal with
  | backedOff hlt =>
      have hbacksOff := hnext .backingOff (Or.inl rfl)
      exact h.tell hrunning (Loop.statuses_report _ _)
        (Loop.snapshot_follows hbacksOff nofun rfl rfl (Or.inr rfl)) h.active h.pending
  | returned hge hescalate =>
      have hfails := hnext .failed (Or.inr rfl)
      exact h.tell hrunning (Loop.statuses_finish _ _)
        (Loop.snapshot_follows hfails nofun rfl rfl (Or.inr rfl)) h.active h.pending
  | crashed hge hescalate => exact h.cut hrunning rfl ⟨_, rfl, nofun⟩ h.active h.pending
  | exited hge hescalate => exact h.cut hrunning rfl ⟨_, rfl, nofun⟩ h.active h.pending

theorem confirm (h : Truthful c) (hrunning : c.loop.Running) (hphase : c.loop.phase = .awaiting)
    {now : Instant} {k : SigningKey} (hpending : c.loop.slots.pending = some k) {t : Tracked} :
    Truthful ⟨c.loop.observing.confirm p now, [.observe t (.ok ())] ++ c.deeds⟩ := by
  have hpromote : c.loop.slots.promote = ⟨some k, none⟩ := by rw [Slots.promote, hpending]
  have hsnapshot : (c.loop.observing.confirm p now).snapshot =
      ⟨.idle, some k.id, none, c.loop.completed + 1, 0⟩ := by
    show (⟨.idle, c.loop.slots.promote.activeId, c.loop.slots.promote.pendingId, _, _⟩ : Status) = _
    rw [hpromote]
    rfl
  have hid : c.loop.snapshot.pending = some k.id := congrArg (Option.map SigningKey.id) hpending
  have hfollows : (c.loop.observing.confirm p now).snapshot.Follows c.loop.snapshot := by
    rw [hsnapshot]
    refine ⟨?_, ?_, fun hne => absurd rfl hne, fun _ hne => absurd rfl hne⟩
    · show Phase.idle ∈ c.loop.phase.successors
      rw [hphase]
      decide
    · intro _
      rw [hid]
      exact ⟨Option.some_ne_none _, rfl, rfl, rfl, rfl⟩
  refine h.tell hrunning (Loop.statuses_report _ _) hfollows ?_ ?_
  · show c.loop.slots.promote.active = none ↔ _
    rw [hpromote]
    exact iff_of_false (Option.some_ne_none _) (Nat.succ_ne_zero _)
  · show c.loop.slots.promote.pending = none
    rw [hpromote]

theorem step (h : Truthful c) (hc : c.Sound) (hstep : Loop.Step p c.loop ds l) :
    Truthful ⟨l, ds ++ c.deeds⟩ := by
  have hnext : c.loop.Running → ∀ next, next = .awaiting ∨ next = .stopped →
      next ∈ c.loop.phase.successors := by
    intro hrunning next
    exact (hc.posture.stance hrunning).mem_successors
  cases hstep with
  | outside submissions world =>
      exact ⟨h.begun, h.path, h.served, h.current, h.active, h.pending⟩
  | begun hnew hbid hlaunch =>
      have hlaunched := (h.starting (p := p) hnew).launch [] ⟨rfl, by rw [hnew]; rfl⟩
        (List.mem_singleton.mpr rfl) hlaunch rfl rfl rfl rfl
      exact ⟨hlaunched.begun, hlaunched.path, hlaunched.served, hlaunched.current,
        hlaunched.active, hlaunched.pending⟩
  | halted hrunning =>
      have hstopped := hnext hrunning .stopped (Or.inr rfl)
      exact h.tell hrunning (Loop.statuses_finish _ _)
        (Loop.snapshot_follows hstopped nofun rfl rfl (Or.inr rfl)) h.active h.pending
  | rotated hrunning hlaunch =>
      have hawaits := hnext hrunning .awaiting (Or.inl rfl)
      exact h.launch [.cancel c.loop.tracked] hrunning hawaits hlaunch rfl rfl rfl rfl
  | retried hrunning hphase hlaunch =>
      have hawaits := hnext hrunning .awaiting (Or.inl rfl)
      exact h.launch [] hrunning hawaits hlaunch rfl rfl rfl rfl
  | confirmed hrunning hphase hout =>
      obtain ⟨k, hk⟩ : ∃ k, c.loop.slots.pending = some k := by
        rcases Loop.outcome?_cases hout with ⟨e, -, he⟩ | ⟨n, s, htracked, -⟩
        · cases he
        · obtain ⟨-, -, k, hk, -⟩ := hc.accounted.latest n htracked
          exact ⟨k, hk⟩
      exact h.confirm hrunning hphase hk
  | refused hrunning hphase hout hrefusal => exact h.refuse hrunning hphase hrefusal

theorem run (p : Plan ω) (world : ω) (turns : List (Loop.Turn ω)) :
    Truthful (.run p world turns) :=
  Chronicle.step_induction (new world) (fun _ _ _ hc hstep h => h.step hc hstep) turns

end Truthful

namespace Loop

variable {p : Plan ω} {l l' : Loop ω} {ds : Deeds}

theorem Launch.goes_on {w : World ω} {trigger : Trigger} {bid : Bid}
    (h : Launch w trigger l bid l') (hending : l.ending = none) : l'.ending ≠ some .finished := by
  rcases h.told with ⟨⟨text, hcrashed⟩, -⟩ | ⟨hsame, -, -⟩
  · rw [hcrashed]
    nofun
  · rw [hsame, hending]
    nofun

theorem Step.terminal (h : Step p l ds l')
    (hl : l.ending = some .finished → l.phase.isTerminal = true)
    (hending : l'.ending = some .finished) : l'.phase.isTerminal = true := by
  cases h with
  | outside submissions world => exact hl hending
  | begun hnew hbid hlaunch => exact absurd hending (hlaunch.goes_on (by rw [hnew]; rfl))
  | halted hrunning => rfl
  | rotated hrunning hlaunch => exact absurd hending (hlaunch.goes_on hrunning.2)
  | retried hrunning hphase hlaunch => exact absurd hending (hlaunch.goes_on hrunning.2)
  | confirmed hrunning hphase hout =>
      have hnone := hrunning.2.symm.trans hending
      cases hnone
  | refused hrunning hphase hout hrefusal =>
      cases hrefusal with
      | backedOff hlt =>
          have hnone := hrunning.2.symm.trans hending
          cases hnone
      | returned hge hescalate => rfl
      | crashed hge hescalate => cases hending
      | exited hge hescalate => cases hending

end Loop

namespace Chronicle

theorem terminal_run (p : Plan ω) (world : ω) (turns : List (Loop.Turn ω)) :
    (run p world turns).loop.ending = some .finished →
      (run p world turns).loop.phase.isTerminal = true :=
  step_induction (P := fun c => c.loop.ending = some .finished → c.loop.phase.isTerminal = true)
    nofun (fun _ _ _ _ hstep h => hstep.terminal h) turns

theorem started_serve (p : Plan ω) (s : Signals) (now : Instant) (c : Chronicle ω) :
    (c.serve p s now).loop.started = true := by
  rcases serve_cases p s now c with ⟨-, h⟩ | ⟨hstarted, h | ⟨o, -, h⟩⟩
  · rw [h]
    exact Loop.started_start p now c.loop
  · rw [h]
    exact hstarted
  · rw [h]
    exact Loop.started_react p now o hstarted

/-- What the latest status tells is what the loop is, from before its start on. -/
theorem status_eq_snapshot (p : Plan ω) (world : ω) (turns : List (Loop.Turn ω))
    (hending : (run p world turns).loop.ending = none ∨
      (run p world turns).loop.ending = some .finished) :
    (run p world turns).loop.status = (run p world turns).loop.snapshot := by
  cases hstarted : (run p world turns).loop.started with
  | false =>
      obtain ⟨outside, hnew⟩ := fresh_run p world turns hstarted
      rw [hnew]
      rfl
  | true =>
      have hcurrent := (Truthful.run p world turns).current hstarted hending
      rw [Loop.status, List.headD_eq_head?_getD, hcurrent]
      rfl

/-- The statuses begin with the initial one, and each follows the one before it. A key is told to be
in use once a rotation is told to be completed. As long as the loop waits, and once it has ended,
the latest status is what the loop is; it tells that the loop is over exactly if it is. From the
first attempt on, the waiting key that is told is that of the latest attempt, if there is one and it
has not been confirmed. A loop that is served tells something. -/
theorem statuses_truthful (p : Plan ω) (world : ω) (turns : List (Loop.Turn ω)) :
    let c := run p world turns
    (c.loop.started = true → ∃ later, c.loop.statuses = later ++ [.initial]) ∧
    c.loop.statuses.IsChain Status.Follows ∧
    (∀ status ∈ c.loop.statuses, status.active = none ↔ status.completed = 0) ∧
    (c.loop.ending = none ∨ c.loop.ending = some .finished →
      c.loop.status = ⟨c.loop.phase, c.loop.slots.activeId, c.loop.slots.pendingId,
        c.loop.completed, c.loop.failures⟩ ∧
      Stance c.loop.started c.loop.status.phase c.loop.tracked c.loop.backoff c.loop.ending ∧
      (c.loop.status.phase.isTerminal = true ↔ c.loop.ending = some .finished)) ∧
    (∀ s now, (c.turn p (.serve s now)).loop.started = true) ∧
    ∀ t, ∃ told, (c.turn p t).loop.statuses = told ++ c.loop.statuses ∧
      ∀ status ∈ told, status.phase ≠ .bootstrapping →
        status.pending = (c.turn p t).deeds.candidate.map (·.id) := by
  intro c
  have hc : c.Sound := sound_run p world turns
  have htruthful : Truthful c := Truthful.run p world turns
  refine ⟨htruthful.begun, htruthful.path, htruthful.served, ?_,
    fun s now => started_serve p s now c, ?_⟩
  · intro hending
    have hstatus : c.loop.status = c.loop.snapshot := status_eq_snapshot p world turns hending
    have hposture : Stance c.loop.started c.loop.phase c.loop.tracked c.loop.backoff
        c.loop.ending := hc.posture
    rw [hstatus]
    refine ⟨rfl, hposture, ?_, terminal_run p world turns⟩
    intro hterminal
    rcases hending with hnone | hfinished
    · cases hstarted : c.loop.started with
      | false =>
          obtain ⟨outside, hnew⟩ := fresh_run p world turns hstarted
          rw [show c = new outside from hnew] at hterminal
          cases hterminal
      | true =>
          rw [hnone, hstarted] at hposture
          exact absurd hterminal hposture.not_terminal
    · exact hfinished
  · intro t
    obtain ⟨ds, hstep, hdeeds⟩ := step_turn_run p world turns t
    obtain ⟨told, htold, hstatuses⟩ := hstep.told
    refine ⟨told, htold, ?_⟩
    intro status hstatus hphase
    rcases hstatuses status hstatus with rfl | ⟨rfl, -⟩
    · have hpending := (htruthful.step hc hstep).pending
      rw [hdeeds]
      exact congrArg (Option.map SigningKey.id) hpending
    · exact absurd rfl hphase

end Chronicle

end

namespace Chronicle

/-- What is told of a first key that is taken at once. -/
theorem statuses_truthful_eager :
    letI : Scheme := .plain
    let c := run eager () [.serve ⟨false, false, false⟩ 0, .serve ⟨false, false, false⟩ 0]
    c.loop.statuses.IsChain Status.Follows ∧
      c.loop.statuses.map (·.phase) = [.idle, .awaiting, .bootstrapping] ∧
      c.loop.status = ⟨.idle, some (SigningKey.numbered 1).id, none, 1, 0⟩ := by
  let _ : Scheme := .plain
  obtain ⟨-, hpath, -, hlatest, -⟩ :=
    statuses_truthful eager () [.serve ⟨false, false, false⟩ 0, .serve ⟨false, false, false⟩ 0]
  exact ⟨hpath, rfl, (hlatest (Or.inl rfl)).1⟩

end Chronicle

end Keyring
