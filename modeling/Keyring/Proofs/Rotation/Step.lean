import Keyring.Proofs.Rotation.Serving

namespace Keyring

open Rotation

theorem Stance.phase_of_backoff {started : Bool} {phase : Phase} {tracked : Tracked}
    {backoff : Option Instant} {ending : Option Ending}
    (h : Stance started phase tracked backoff ending) (hbackoff : backoff ≠ none)
    (hending : ending = none) : phase = .backingOff := by
  cases h with
  | backingOff deadline => rfl
  | ended => cases hending
  | _ => exact absurd rfl hbackoff

variable [Scheme] {ω : Type}

namespace Loop

/-- What the loop would tell if it told its status now. -/
def snapshot (l : Loop ω) : Status :=
  ⟨l.phase, l.slots.activeId, l.slots.pendingId, l.completed, l.failures⟩

theorem statuses_report (phase : Phase) (l : Loop ω) :
    (l.report phase).statuses = (l.report phase).snapshot :: l.statuses := by
  rw [report_eq]
  rfl

theorem statuses_finish (phase : Phase) (l : Loop ω) :
    (l.finish phase).statuses = (l.finish phase).snapshot :: l.statuses :=
  statuses_report phase l

def Running (l : Loop ω) : Prop := l.started = true ∧ l.ending = none

theorem Posture.stance {l : Loop ω} (h : l.Posture) (hrunning : l.Running) :
    Stance true l.phase l.tracked l.backoff none := by
  unfold Posture at h
  rw [hrunning.1, hrunning.2] at h
  exact h

def stopping (l : Loop ω) : Loop ω := { l with
  tracked := .inert
  submissions := l.tracked.amend Submission.cancel l.submissions
  log := Notice.stopping :: l.log
  metrics := if l.phase = .awaiting then l.metrics.cancel "shutdown" else l.metrics }

theorem halt_eq (l : Loop ω) : l.halt = l.stopping.finish .stopped := by
  simp only [halt, cancel_eq, note, stopping]

def observing (l : Loop ω) : Loop ω := { l with
  tracked := .inert
  submissions := l.tracked.amend (fun s => s.poll.2.release) l.submissions }

theorem settle_eq_observing (l : Loop ω) : l.settle = l.observing := settle_eq l

def givingUp (e : PublishError) (l : Loop ω) : Loop ω := { l with
  failures := countFailure l.failures
  metrics := (l.metrics.result "error").escalate
  log := Notice.gaveUp l.slots.activeId l.slots.pendingId e (countFailure l.failures) :: l.log
  escalated := e :: l.escalated }

/-- What becomes of a loop that is told of a failure: it waits to try again, or it gives up and
hands the failure on. -/
inductive Refusal (p : Plan ω) (now : Instant) (e : PublishError) (l : Loop ω) : Loop ω → Prop
  | backedOff (h : countFailure l.failures < p.settings.maxAttempts) :
      Refusal p now e l ({ l with
        failures := countFailure l.failures
        metrics := l.metrics.result "error"
        log := Notice.willRetry l.slots.activeId l.slots.pendingId e (countFailure l.failures)
          l.delay.millis :: l.log
        backoff := some (l.delay.after now)
        delay := l.delay.next }.report .backingOff)
  | returned (h : ¬ countFailure l.failures < p.settings.maxAttempts)
      (hescalate : p.world.escalate e = .returns) :
      Refusal p now e l ((l.givingUp e).finish .failed)
  | crashed {text : String} (h : ¬ countFailure l.failures < p.settings.maxAttempts)
      (hescalate : p.world.escalate e = .crashes text) :
      Refusal p now e l { l.givingUp e with ending := some (.crashed text) }
  | exited (h : ¬ countFailure l.failures < p.settings.maxAttempts)
      (hescalate : p.world.escalate e = .exits) :
      Refusal p now e l
        { (l.givingUp e).note (Notice.terminating e) with ending := some .exited }

theorem refuse_spec (p : Plan ω) (now : Instant) (e : PublishError) (l : Loop ω) :
    Refusal p now e l (l.refuse p now e) := by
  unfold refuse
  dsimp only
  split
  · rename_i h
    exact .backedOff h
  · rename_i h
    unfold escalate
    dsimp only
    split
    · rename_i hescalate
      exact .returned h hescalate
    · rename_i text hescalate
      exact .crashed h hescalate
    · rename_i hescalate
      exact .exited h hescalate

/-- All that a turn can do: what is done, and the loop that comes of it. -/
inductive Step (p : Plan ω) (l : Loop ω) : Deeds → Loop ω → Prop
  | outside (submissions : Submissions) (world : ω) : Step p l [] { l with submissions, world }
  | begun {bid : Bid} {launched : Loop ω} {ticker : Option Ticker} {log : Journal}
      (hnew : l = new l.world) (hbid : bid.trigger = .bootstrap)
      (hlaunch : Launch p.world .bootstrap (l.starting p) bid launched) :
      Step p l [.attempt bid] { launched with ticker, log }
  | halted (hrunning : l.Running) : Step p l [.cancel l.tracked] (l.stopping.finish .stopped)
  | rotated {now : Instant} {bid : Bid} {l' : Loop ω} (hrunning : l.Running)
      (hlaunch : Launch p.world .scheduled (l.superseding now) bid l') :
      Step p l [.attempt bid, .cancel l.tracked] l'
  | retried {bid : Bid} {l' : Loop ω} (hrunning : l.Running) (hphase : l.phase = .backingOff)
      (hlaunch : Launch p.world .retry l.retrying bid l') : Step p l [.attempt bid] l'
  | confirmed {now : Instant} (hrunning : l.Running) (hphase : l.phase = .awaiting)
      (hout : l.outcome? = some (.ok ())) :
      Step p l [.observe l.tracked (.ok ())] (l.observing.confirm p now)
  | refused {now : Instant} {e : PublishError} {l' : Loop ω} (hrunning : l.Running)
      (hphase : l.phase = .awaiting) (hout : l.outcome? = some (.error e))
      (hrefusal : Refusal p now e l.observing l') :
      Step p l [.observe l.tracked (.error e)] l'

theorem Launch.trigger_eq {w : World ω} {trigger : Trigger} {l l' : Loop ω} {bid : Bid}
    (h : Launch w trigger l bid l') : bid.trigger = trigger := by
  cases h <;> rfl

theorem Launch.keeps {w : World ω} {trigger : Trigger} {l l' : Loop ω} {bid : Bid}
    (h : Launch w trigger l bid l') : l'.slots.active = l.slots.active ∧
      l'.completed = l.completed ∧ l'.failures = l.failures ∧ l'.escalated = l.escalated := by
  cases h <;> exact ⟨rfl, rfl, rfl, rfl⟩

theorem Refusal.keeps {p : Plan ω} {now : Instant} {e : PublishError} {l l' : Loop ω}
    (h : Refusal p now e l l') : l'.slots = l.slots ∧ l'.ticker = l.ticker ∧
      l'.completed = l.completed ∧ (l.started = true → l'.started = true) := by
  cases h with
  | backedOff hlt => exact ⟨rfl, rfl, rfl, fun _ => rfl⟩
  | returned hge hescalate => exact ⟨rfl, rfl, rfl, fun _ => rfl⟩
  | crashed hge hescalate => exact ⟨rfl, rfl, rfl, id⟩
  | exited hge hescalate => exact ⟨rfl, rfl, rfl, id⟩

/-- An attempt that has something to await is told at once, and one that crashed is not told. -/
theorem Launch.told {w : World ω} {trigger : Trigger} {l l' : Loop ω} {bid : Bid}
    (h : Launch w trigger l bid l') :
    (∃ text, l'.ending = some (.crashed text)) ∧ l'.statuses = l.statuses ∨
      l'.ending = l.ending ∧ l'.phase = .awaiting ∧ l'.statuses = l'.snapshot :: l.statuses := by
  cases h with
  | undrawn hdraw => exact Or.inl ⟨⟨_, rfl⟩, rfl⟩
  | failed hdraw => exact Or.inr ⟨rfl, rfl, statuses_report _ _⟩
  | crashed hdraw hpublish => exact Or.inl ⟨⟨_, rfl⟩, rfl⟩
  | accepted hdraw hpublish => exact Or.inr ⟨rfl, rfl, statuses_report _ _⟩

theorem Launch.told_cases {w : World ω} {trigger : Trigger} {l l' : Loop ω} {bid : Bid}
    (h : Launch w trigger l bid l') : ∃ told, l'.statuses = told ++ l.statuses ∧
      ∀ status ∈ told, status = l'.snapshot ∨ status = .initial ∧ l'.failures = 0 := by
  rcases h.told with ⟨-, htold⟩ | ⟨-, -, htold⟩
  · exact ⟨[], htold, nofun⟩
  · exact ⟨[_], htold, fun _ h => Or.inl (List.mem_singleton.mp h)⟩

theorem Refusal.told {p : Plan ω} {now : Instant} {e : PublishError} {l l' : Loop ω}
    (h : Refusal p now e l l') :
    (∃ ending, l'.ending = some ending ∧ ending ≠ .finished) ∧ l'.statuses = l.statuses ∨
      l'.statuses = l'.snapshot :: l.statuses := by
  cases h with
  | backedOff hlt => exact Or.inr (statuses_report _ _)
  | returned hge hescalate => exact Or.inr (statuses_finish _ _)
  | crashed hge hescalate => exact Or.inl ⟨⟨_, rfl, nofun⟩, rfl⟩
  | exited hge hescalate => exact Or.inl ⟨⟨_, rfl, nofun⟩, rfl⟩

theorem step_start (p : Plan ω) (now : Instant) {l : Loop ω} (hnew : l = new l.world) :
    Step p l [.attempt (l.bid p.world .bootstrap)] (l.start p now) := by
  obtain ⟨launched, ticker, log, hlaunch, heq⟩ := start_spec p now l
  rw [heq]
  exact .begun hnew hlaunch.trigger_eq hlaunch

theorem step_react (p : Plan ω) (s : Signals) (now : Instant) {l : Loop ω} {o : Occurrence}
    (hposture : l.Posture) (hstarted : l.started = true) (hnext : l.next? s = some o) :
    Step p l (l.deeds p o) (l.react p now o) := by
  obtain ⟨hending, hcause⟩ := next?_cases hnext
  have hrunning : l.Running := ⟨hstarted, hending⟩
  cases o with
  | stop =>
      simp only [react, halt_eq]
      exact .halted hrunning
  | tick => exact .rotated hrunning (rotate_spec p now l)
  | retry =>
      have hbackoff : l.backoff ≠ none := Option.isSome_iff_ne_none.mp hcause.1
      have hphase : l.phase = .backingOff := hposture.phase_of_backoff hbackoff hending
      exact .retried hrunning hphase (retry_spec p l)
  | outcome o =>
      obtain ⟨-, hphase, -, -⟩ := hposture.of_tracked (tracked_ne_of_outcome? hcause)
      cases o with
      | ok _ =>
          simp only [react, settle_eq_observing]
          exact .confirmed hrunning hphase hcause
      | error e =>
          simp only [react, settle_eq_observing]
          exact .refused hrunning hphase hcause (refuse_spec p now e l.observing)

/-- What is told in a step is the status that the loop has come to. Only a loop that begins tells
that it has begun first. -/
theorem Step.told {p : Plan ω} {l l' : Loop ω} {ds : Deeds} (h : Step p l ds l') :
    ∃ told, l'.statuses = told ++ l.statuses ∧
      ∀ status ∈ told, status = l'.snapshot ∨ status = .initial ∧ l'.failures = 0 := by
  cases h with
  | outside submissions world => exact ⟨[], rfl, nofun⟩
  | begun hnew hbid hlaunch =>
      have hfailures := hlaunch.keeps.2.2.1
      rw [hnew] at hlaunch hfailures
      rcases hlaunch.told with ⟨-, htold⟩ | ⟨-, -, htold⟩
      · refine ⟨[.initial], htold.trans (by rw [hnew]; rfl), ?_⟩
        intro status hstatus
        exact Or.inr ⟨List.mem_singleton.mp hstatus, hfailures⟩
      · refine ⟨[_, .initial], htold.trans (by rw [hnew]; rfl), ?_⟩
        intro status hstatus
        simp only [List.mem_cons, List.not_mem_nil, or_false] at hstatus
        rcases hstatus with rfl | rfl
        · exact Or.inl rfl
        · exact Or.inr ⟨rfl, hfailures⟩
  | halted hrunning =>
      exact ⟨[_], statuses_finish _ _, fun _ h => Or.inl (List.mem_singleton.mp h)⟩
  | rotated hrunning hlaunch => exact hlaunch.told_cases
  | retried hrunning hphase hlaunch => exact hlaunch.told_cases
  | confirmed hrunning hphase hout =>
      exact ⟨[_], statuses_report _ _, fun _ h => Or.inl (List.mem_singleton.mp h)⟩
  | refused hrunning hphase hout hrefusal =>
      rcases hrefusal.told with ⟨-, htold⟩ | htold
      · exact ⟨[], htold, nofun⟩
      · exact ⟨[_], htold, fun _ h => Or.inl (List.mem_singleton.mp h)⟩

theorem Step.started {p : Plan ω} {l l' : Loop ω} {ds : Deeds} (h : Step p l ds l')
    (hstarted : l.started = true) : l'.started = true := by
  obtain ⟨told, htold, -⟩ := h.told
  rw [started_iff] at hstarted ⊢
  rw [htold]
  exact List.append_ne_nil_of_right_ne_nil told hstarted

end Loop

namespace Chronicle

theorem amend_new (world : ω) (i : Nat) (f : Submission → Submission) :
    (new world).amend i f = new world := by
  simp [amend, new, Loop.new]

/-- As long as a loop has not started, nothing has happened to it. -/
def Fresh (c : Chronicle ω) : Prop := c.loop.started = false → ∃ world, c = new world

theorem fresh_turn (p : Plan ω) (t : Loop.Turn ω) {c : Chronicle ω} (h : c.Fresh) :
    (c.turn p t).Fresh := by
  intro hstarted
  cases t with
  | serve s now =>
      simp only [turn] at hstarted ⊢
      rcases serve_cases p s now c with ⟨-, heq⟩ | ⟨hc, heq | ⟨o, -, heq⟩⟩
      · rw [heq] at hstarted
        cases hstarted.symm.trans (Loop.started_start p now c.loop)
      · rw [heq] at hstarted ⊢
        exact h hstarted
      · rw [heq] at hstarted
        cases hstarted.symm.trans (Loop.started_react p now o hc)
  | report i outcome =>
      obtain ⟨world, rfl⟩ := h hstarted
      exact ⟨world, amend_new world i _⟩
  | abandon i =>
      obtain ⟨world, rfl⟩ := h hstarted
      exact ⟨world, amend_new world i _⟩
  | elapse world =>
      obtain ⟨_, rfl⟩ := h hstarted
      exact ⟨world, rfl⟩

theorem fresh_run (p : Plan ω) (world : ω) (turns : List (Loop.Turn ω)) :
    (run p world turns).Fresh :=
  run_induction (fun _ => ⟨world, rfl⟩) (fun _ t h => fresh_turn p t h) turns

theorem step_turn (p : Plan ω) (t : Loop.Turn ω) {c : Chronicle ω} (hc : c.Sound)
    (hfresh : c.Fresh) :
    ∃ ds, Loop.Step p c.loop ds (c.turn p t).loop ∧ (c.turn p t).deeds = ds ++ c.deeds := by
  cases t with
  | serve s now =>
      simp only [turn]
      rcases serve_cases p s now c with ⟨hstarted, heq⟩ | ⟨hstarted, heq | ⟨o, hnext, heq⟩⟩
      · obtain ⟨world, rfl⟩ := hfresh hstarted
        rw [heq]
        exact ⟨_, Loop.step_start p now rfl, rfl⟩
      · rw [heq]
        exact ⟨[], .outside _ _, rfl⟩
      · rw [heq]
        exact ⟨_, Loop.step_react p s now hc.posture hstarted hnext, rfl⟩
  | report i outcome => exact ⟨[], .outside _ _, rfl⟩
  | abandon i => exact ⟨[], .outside _ _, rfl⟩
  | elapse world => exact ⟨[], .outside _ _, rfl⟩

theorem step_turn_run (p : Plan ω) (world : ω) (turns : List (Loop.Turn ω)) (t : Loop.Turn ω) :
    ∃ ds, Loop.Step p (run p world turns).loop ds ((run p world turns).turn p t).loop ∧
      ((run p world turns).turn p t).deeds = ds ++ (run p world turns).deeds :=
  step_turn p t (sound_run p world turns) (fresh_run p world turns)

/-- What holds of a new loop and is kept by every step holds all along a run. -/
theorem step_induction {p : Plan ω} {P : Chronicle ω → Prop} {world : ω} (hnew : P (new world))
    (hstep : ∀ c ds l, c.Sound → Loop.Step p c.loop ds l → P c → P ⟨l, ds ++ c.deeds⟩)
    (turns : List (Loop.Turn ω)) : P (run p world turns) := by
  have h : (run p world turns).Sound ∧ (run p world turns).Fresh ∧ P (run p world turns) := by
    apply run_induction (P := fun c => c.Sound ∧ c.Fresh ∧ P c)
    · exact ⟨sound_new world, fun _ => ⟨world, rfl⟩, hnew⟩
    · rintro c t ⟨hsound, hfresh, hc⟩
      obtain ⟨ds, hds, hdeeds⟩ := step_turn p t hsound hfresh
      have hturn := hstep c ds _ hsound hds hc
      rw [← hdeeds] at hturn
      exact ⟨sound_turn p t hsound, fresh_turn p t hfresh, hturn⟩
  exact h.2.2

theorem serve_of_ended (p : Plan ω) (s : Signals) (now : Instant) {c : Chronicle ω}
    (hstarted : c.loop.started = true) (hended : c.loop.ending ≠ none) : c.serve p s now = c := by
  rcases serve_cases p s now c with ⟨hnot, -⟩ | ⟨-, heq | ⟨o, hnext, -⟩⟩
  · rw [hstarted] at hnot
    cases hnot
  · exact heq
  · exact absurd (Loop.next?_cases hnext).1 hended

/-- Nothing more is done once a loop has ended. -/
theorem extend_of_ended (p : Plan ω) {c : Chronicle ω} (hstarted : c.loop.started = true)
    (hended : c.loop.ending ≠ none) (more : List (Loop.Turn ω)) :
    ∃ submissions world, c.extend p more = ⟨{ c.loop with submissions, world }, c.deeds⟩ := by
  apply extend_induction (P := fun d => ∃ submissions world,
    d = ⟨{ c.loop with submissions, world }, c.deeds⟩)
  · rintro d t ⟨submissions, world, rfl⟩
    cases t with
    | serve s now =>
        refine ⟨submissions, world, ?_⟩
        exact serve_of_ended p s now hstarted hended
    | report i outcome => exact ⟨_, _, rfl⟩
    | abandon i => exact ⟨_, _, rfl⟩
    | elapse world => exact ⟨_, _, rfl⟩
  · exact ⟨_, _, rfl⟩

end Chronicle

end Keyring
