import Keyring.Proofs.Rotation.Counters

namespace Keyring

open Rotation

section

variable [Scheme] {ω : Type}

/-- A loop that starts at this moment never rotates by itself: it has no period, or a zero one, or
one whose first moment cannot be shown. -/
def Rotation.Plan.Unscheduled (p : Plan ω) (now : Instant) : Prop :=
  ∀ d, p.settings.interval = some d →
    d.isZero = true ∨ Ticker.representable (now + d.nanos) = false

theorem Rotation.Plan.Unscheduled.start?_eq_none {p : Plan ω} {now : Instant}
    (h : p.Unscheduled now) : Ticker.start? now p.settings.interval = none := by
  unfold Ticker.start?
  split
  · rfl
  · rename_i d hinterval
    split
    · rename_i hpos
      have hunshown : Ticker.representable (now + d.nanos) = false := by
        refine (h d hinterval).resolve_left fun hzero => ?_
        exact absurd (beq_iff_eq.mp hzero) (Nat.ne_of_gt hpos)
      rw [hunshown]
      rfl
    · rfl

namespace Deeds

def attempts (trigger : Trigger) (ds : Deeds) : Nat :=
  ds.bids.countP fun bid => bid.trigger = trigger

/-- How often the waiting key came into use. -/
def promotions (ds : Deeds) : Nat := (ds.filterMap Deed.success?).length

theorem attempts_attempt (trigger : Trigger) (bid : Bid) (ds : Deeds) :
    attempts trigger (.attempt bid :: ds) =
      ds.attempts trigger + if bid.trigger = trigger then 1 else 0 := by
  simp only [attempts, bids, List.filterMap_cons, List.countP_cons, decide_eq_true_eq]

theorem length_bids (ds : Deeds) :
    ds.bids.length = ds.attempts .bootstrap + ds.attempts .scheduled + ds.attempts .retry := by
  unfold attempts
  induction ds.bids with
  | nil => rfl
  | cons bid bids ih =>
      simp only [List.countP_cons, List.length_cons]
      cases bid.trigger <;> simp <;> omega

theorem promotions_ne_zero {ds : Deeds} {t : Tracked} (h : .observe t (.ok ()) ∈ ds) :
    ds.promotions ≠ 0 := by
  intro hzero
  have hnone := List.filterMap_eq_nil_iff.mp (List.length_eq_zero_iff.mp hzero) _ h
  cases hnone

end Deeds

namespace Loop

/-- The moment of a turn in which the loop is served. -/
def Turn.moment? : Turn ω → Option Instant
  | .serve _ now => some now
  | _ => none

omit [Scheme] in
theorem Turn.eq_serve {t : Turn ω} {now : Instant} (h : t.moment? = some now) :
    ∃ s, t = .serve s now := by
  cases t with
  | serve s now =>
      cases h
      exact ⟨s, rfl⟩
  | _ => cases h

def Turn.stops : Turn ω → Bool
  | .serve s _ => s.stop
  | _ => false

/-- A backoff has come to its end, and the loop reacts to that in this turn. -/
def elapsesBackoff (l : Loop ω) : Turn ω → Bool
  | .serve s _ => l.next? s = some .retry
  | _ => false

/-- What the loop makes an attempt for in this turn, if it makes one. -/
def triggered (l : Loop ω) : Turn ω → Option Trigger
  | .serve s _ =>
      if l.started then
        match l.next? s with
        | some .tick => some .scheduled
        | some .retry => some .retry
        | _ => none
      else some .bootstrap
  | _ => none

theorem ticker_start {p : Plan ω} {now : Instant} (h : p.Unscheduled now) {l : Loop ω}
    (hticker : l.ticker = none) : (l.start p now).ticker = none := by
  have hlaunched : ((l.starting p).launch p.world .bootstrap).ticker = none :=
    (ticker_launch _ _ _).trans hticker
  unfold start
  dsimp only
  split
  · exact hlaunched
  · unfold schedule
    rw [h.start?_eq_none]
    split
    · rename_i hsome
      cases hsome
    · split <;> exact hlaunched
    · exact hlaunched

theorem ticker_react (p : Plan ω) (now : Instant) (o : Occurrence) {l : Loop ω}
    (h : l.ticker = none) : (l.react p now o).ticker = none := by
  cases o with
  | stop =>
      simp only [react, halt_eq]
      exact h
  | tick =>
      rw [react, ticker_rotate, h]
      rfl
  | retry => exact (ticker_retry p l).trans h
  | outcome o =>
      have hsettled : l.settle.ticker = none := (ticker_settle l).trans h
      cases o with
      | ok _ => exact hsettled
      | error e => exact (refuse_spec p now e l.settle).keeps.2.1.trans hsettled

end Loop

/-- How a loop that does not rotate by itself has come to where it is: with one attempt, and one
more for each retry, up to the first success. From then on it is idle, until it is stopped. -/
structure Single (p : Plan ω) (c : Chronicle ω) : Prop where
  unstarted : c.loop.started = false → c.deeds = []
  bootstrap : c.loop.started = true → c.deeds.attempts .bootstrap = 1
  scheduled : c.deeds.attempts .scheduled = 0
  bounded : c.deeds.attempts .retry < p.limit
  waiting : c.loop.Running → c.deeds.promotions = 0 → c.deeds.attempts .retry +
    (if c.loop.phase = .backingOff then 1 else 0) ≤ c.loop.failures.toNat
  completed : c.loop.completed = c.deeds.promotions
  once : c.deeds.promotions ≤ 1
  done : c.deeds.promotions ≠ 0 → c.loop.phase = .idle ∧ c.loop.ending = none ∨
    c.loop.phase = .stopped ∧ c.loop.ending = some .finished

namespace Single

variable {p : Plan ω} {c : Chronicle ω}

theorem new (p : Plan ω) (world : ω) : Single p (.new world) where
  unstarted _ := rfl
  bootstrap h := by cases h
  scheduled := rfl
  bounded := Nat.lt_of_lt_of_le Nat.zero_lt_one (Nat.le_max_left _ _)
  waiting _ _ := Nat.zero_le _
  completed := rfl
  once := Nat.zero_le 1
  done h := absurd rfl h

theorem promotions_eq_zero (h : Single p c) (hending : c.loop.ending = none)
    (hphase : c.loop.phase ≠ .idle) : c.deeds.promotions = 0 := by
  by_contra hne
  rcases h.done hne with ⟨hidle, -⟩ | ⟨-, hfinished⟩
  · exact hphase hidle
  · cases hending.symm.trans hfinished

theorem begin (h : Single p c) {world : ω} (hnew : c.loop = .new world) {l : Loop ω} {bid : Bid}
    (hbid : bid.trigger = .bootstrap)
    (hlaunch : Loop.Launch p.world .bootstrap (c.loop.starting p) bid l)
    (ticker : Option Ticker) (log : Journal) :
    Single p ⟨{ l with ticker, log }, .attempt bid :: c.deeds⟩ := by
  have hdeeds : c.deeds = [] := h.unstarted (by rw [hnew]; rfl)
  have hstarted : l.started = true := hlaunch.started rfl
  have hattempts (trigger : Trigger) : Deeds.attempts trigger (.attempt bid :: c.deeds) =
      if bid.trigger = trigger then 1 else 0 := by
    rw [Deeds.attempts_attempt, hdeeds]
    exact Nat.zero_add _
  have hretries : Deeds.attempts .retry (.attempt bid :: c.deeds) = 0 := by
    rw [hattempts, hbid]
    rfl
  refine ⟨?_, ?_, ?_, ?_, ?_, ?_, h.once, ?_⟩
  · intro hnot
    cases hstarted.symm.trans hnot
  · intro _
    rw [hattempts, if_pos hbid]
  · rw [hattempts, hbid]
    rfl
  · rw [hretries]
    exact Nat.lt_of_lt_of_le Nat.zero_lt_one (Nat.le_max_left _ _)
  · intro hrunning _
    rcases hlaunch.told with ⟨⟨text, hcrashed⟩, -⟩ | ⟨-, hawaiting, -⟩
    · cases hrunning.2.symm.trans hcrashed
    · rw [hretries, if_neg (by rw [hawaiting]; nofun)]
      exact Nat.zero_le _
  · exact hlaunch.keeps.2.1.trans h.completed
  · intro hne
    exact absurd (by rw [hdeeds]; rfl) hne

theorem halt (h : Single p c) (hstarted : c.loop.started = true) :
    Single p ⟨c.loop.stopping.finish .stopped, .cancel c.loop.tracked :: c.deeds⟩ where
  unstarted hnot := by cases hnot
  bootstrap _ := h.bootstrap hstarted
  scheduled := h.scheduled
  bounded := h.bounded
  waiting hrunning := by cases hrunning.2
  completed := h.completed
  once := h.once
  done _ := Or.inr ⟨rfl, rfl⟩

theorem retry (h : Single p c) (hstrict : Strict p c) (hrunning : c.loop.Running)
    (hphase : c.loop.phase = .backingOff) {l : Loop ω} {bid : Bid}
    (hlaunch : Loop.Launch p.world .retry c.loop.retrying bid l) :
    Single p ⟨l, .attempt bid :: c.deeds⟩ := by
  have hnone : c.deeds.promotions = 0 := h.promotions_eq_zero hrunning.2 (by rw [hphase]; nofun)
  have hattempts (trigger : Trigger) : Deeds.attempts trigger (.attempt bid :: c.deeds) =
      c.deeds.attempts trigger + if trigger = .retry then 1 else 0 := by
    rw [Deeds.attempts_attempt, hlaunch.trigger_eq]
    simp only [eq_comm]
  have hwaiting := h.waiting hrunning hnone
  rw [if_pos hphase] at hwaiting
  refine ⟨?_, ?_, ?_, ?_, ?_, ?_, h.once, fun hne => absurd hnone hne⟩
  · intro hnot
    cases (hlaunch.started hrunning.1).symm.trans hnot
  · intro _
    rw [hattempts, h.bootstrap hrunning.1]
    rfl
  · rw [hattempts, h.scheduled]
    rfl
  · rw [hattempts, if_pos rfl]
    exact Nat.lt_of_le_of_lt hwaiting (hstrict.below hrunning.2)
  · intro hrunning' _
    rcases hlaunch.told with ⟨⟨text, hcrashed⟩, -⟩ | ⟨-, hawaiting, -⟩
    · cases hrunning'.2.symm.trans hcrashed
    · rw [hattempts, if_pos rfl, if_neg (by rw [hawaiting]; nofun), hlaunch.keeps.2.2.1]
      exact hwaiting
  · exact hlaunch.keeps.2.1.trans h.completed

theorem confirm (h : Single p c) (hrunning : c.loop.Running) (hphase : c.loop.phase = .awaiting)
    {now : Instant} {t : Tracked} :
    Single p ⟨c.loop.observing.confirm p now, .observe t (.ok ()) :: c.deeds⟩ := by
  have hnone : c.deeds.promotions = 0 := h.promotions_eq_zero hrunning.2 (by rw [hphase]; nofun)
  have hone : Deeds.promotions (.observe t (.ok ()) :: c.deeds) = c.deeds.promotions + 1 := rfl
  refine ⟨?_, fun _ => h.bootstrap hrunning.1, h.scheduled, h.bounded, ?_, ?_, ?_, ?_⟩
  · intro hnot
    cases hnot
  · intro _ hzero
    rw [hone] at hzero
    cases hzero
  · rw [hone, ← h.completed]
    rfl
  · rw [hone, hnone]
  · intro _
    exact Or.inl ⟨rfl, hrunning.2⟩

theorem refuse (h : Single p c) (hstrict : Strict p c) (hrunning : c.loop.Running)
    (hphase : c.loop.phase = .awaiting) {now : Instant} {t : Tracked} {e : PublishError}
    {l : Loop ω} (hrefusal : Loop.Refusal p now e c.loop.observing l) :
    Single p ⟨l, .observe t (.error e) :: c.deeds⟩ := by
  have hnone : c.deeds.promotions = 0 := h.promotions_eq_zero hrunning.2 (by rw [hphase]; nofun)
  have hwaiting := h.waiting hrunning hnone
  rw [if_neg (by rw [hphase]; nofun)] at hwaiting
  have hcount := Loop.toNat_countFailure (hstrict.fits hrunning.2)
  obtain ⟨-, -, hcompleted, hstarted⟩ := hrefusal.keeps
  refine ⟨?_, fun _ => h.bootstrap hrunning.1, h.scheduled, h.bounded, ?_, ?_, h.once,
    fun hne => absurd hnone hne⟩
  · intro hnot
    cases (hstarted hrunning.1).symm.trans hnot
  · intro hrunning' _
    cases hrefusal with
    | backedOff hlt =>
        show c.deeds.attempts .retry + 1 ≤ (Loop.countFailure c.loop.failures).toNat
        rw [hcount]
        exact Nat.succ_le_succ hwaiting
    | returned hge hescalate => cases hrunning'.2
    | crashed hge hescalate => cases hrunning'.2
    | exited hge hescalate => cases hrunning'.2
  · exact hcompleted.trans h.completed

/-- All that a step can do but rotate. -/
theorem step (h : Single p c) (hstrict : Strict p c) {ds : Deeds} {l : Loop ω}
    (hstep : Loop.Step p c.loop ds l) (hds : (ds ++ c.deeds).attempts .scheduled = 0) :
    Single p ⟨l, ds ++ c.deeds⟩ := by
  cases hstep with
  | outside submissions world =>
      exact ⟨h.unstarted, h.bootstrap, h.scheduled, h.bounded, h.waiting, h.completed, h.once,
        h.done⟩
  | begun hnew hbid hlaunch => exact h.begin hnew hbid hlaunch _ _
  | halted hrunning => exact h.halt hrunning.1
  | rotated hrunning hlaunch =>
      rw [List.cons_append, Deeds.attempts_attempt, if_pos hlaunch.trigger_eq] at hds
      cases hds
  | retried hrunning hphase hlaunch => exact h.retry hstrict hrunning hphase hlaunch
  | confirmed hrunning hphase hout => exact h.confirm hrunning hphase
  | refused hrunning hphase hout hrefusal => exact h.refuse hstrict hrunning hphase hrefusal

end Single

namespace Chronicle

/-- The backoffs that come to their end in these turns. -/
def backoffsElapsed (p : Plan ω) (c : Chronicle ω) : List (Loop.Turn ω) → Nat
  | [] => 0
  | t :: turns =>
      (if c.loop.elapsesBackoff t then 1 else 0) + (c.turn p t).backoffsElapsed p turns

theorem attempts_turn (p : Plan ω) (t : Loop.Turn ω) (c : Chronicle ω) (trigger : Trigger) :
    (c.turn p t).deeds.attempts trigger =
      c.deeds.attempts trigger + if c.loop.triggered t = some trigger then 1 else 0 := by
  cases t with
  | serve s now =>
      simp only [turn, serve, Loop.triggered]
      by_cases hstarted : c.loop.started = true
      · simp only [if_pos hstarted]
        cases hnext : c.loop.next? s with
        | none => rfl
        | some o =>
            cases o with
            | stop => rfl
            | tick =>
                simp only [Option.some.injEq]
                exact Deeds.attempts_attempt _ _ _
            | retry =>
                simp only [Option.some.injEq]
                exact Deeds.attempts_attempt _ _ _
            | outcome o => rfl
      · simp only [if_neg hstarted, Option.some.injEq]
        exact Deeds.attempts_attempt _ _ _
  | report i outcome => rfl
  | abandon i => rfl
  | elapse world => rfl

end Chronicle

namespace Loop

variable {l : Loop ω} {t : Turn ω}

theorem triggered_retry_iff (h : l.started = false → l.backoff = none) :
    l.triggered t = some .retry ↔ l.elapsesBackoff t = true := by
  cases t with
  | serve s now =>
      simp only [triggered, elapsesBackoff, decide_eq_true_eq]
      cases hstarted : l.started with
      | false =>
          refine iff_of_false (by simp) fun hnext => ?_
          obtain ⟨-, hbackoff, -⟩ := next?_cases hnext
          rw [h hstarted] at hbackoff
          cases hbackoff
      | true =>
          rw [if_pos rfl]
          cases hnext : l.next? s with
          | none => simp
          | some o => cases o <;> simp
  | _ => simp [triggered, elapsesBackoff]

/-- The loop awaits nothing and waits for nothing but a stop. -/
structure Resting (l : Loop ω) : Prop where
  started : l.started = true
  phase : l.phase = .idle
  tracked : l.tracked = .inert
  backoff : l.backoff = none
  ending : l.ending = none
  ticker : l.ticker = none

theorem Posture.resting (h : l.Posture) (hphase : l.phase = .idle) (hstarted : l.started = true)
    (hending : l.ending = none) (hticker : l.ticker = none) : l.Resting := by
  have hstance := h.stance ⟨hstarted, hending⟩
  rw [hphase] at hstance
  obtain ⟨htracked, hbackoff⟩ := hstance.of_idle
  exact ⟨hstarted, hphase, htracked, hbackoff, hending, hticker⟩

theorem triggered_ne_scheduled (h : l.ticker = none) : l.triggered t ≠ some .scheduled := by
  cases t with
  | serve s now =>
      simp only [triggered]
      split
      · split
        · rename_i hnext
          obtain ⟨-, hticker, -⟩ := next?_cases hnext
          rw [h] at hticker
          cases hticker
        · simp
        · simp
      · simp
  | _ => simp [triggered]

end Loop

namespace Chronicle

/-- There are as many retries as backoffs that have come to their end. -/
theorem retries_extend (p : Plan ω) (turns : List (Loop.Turn ω)) {c : Chronicle ω} (hc : c.Sound)
    (hfresh : c.Fresh) :
    (c.extend p turns).deeds.attempts .retry =
      c.deeds.attempts .retry + c.backoffsElapsed p turns := by
  induction turns generalizing c with
  | nil => rfl
  | cons t turns ih =>
      have hturn := ih (sound_turn p t hc) (fresh_turn p t hfresh)
      have hbackoff : c.loop.started = false → c.loop.backoff = none := by
        intro hstarted
        obtain ⟨world, rfl⟩ := hfresh hstarted
        rfl
      rw [attempts_turn, Nat.add_assoc] at hturn
      simp only [Loop.triggered_retry_iff hbackoff] at hturn
      exact hturn

/-- If a run starts in these turns then at a moment for which no rotation is scheduled. -/
def StartsUnscheduled (p : Plan ω) (turns : List (Loop.Turn ω)) : Prop :=
  ∀ now, turns.findSome? Loop.Turn.moment? = some now → p.Unscheduled now

theorem ticker_turn (p : Plan ω) (t : Loop.Turn ω) {c : Chronicle ω}
    (hticker : c.loop.ticker = none)
    (ht : c.loop.started = false → ∀ now, t.moment? = some now → p.Unscheduled now) :
    (c.turn p t).loop.ticker = none := by
  cases t with
  | serve s now =>
      simp only [turn]
      rcases serve_cases p s now c with ⟨hstarted, heq⟩ | ⟨-, heq | ⟨o, hnext, heq⟩⟩
      · rw [heq]
        exact Loop.ticker_start (ht hstarted now rfl) hticker
      · rw [heq]
        exact hticker
      · rw [heq]
        exact Loop.ticker_react p now o hticker
  | report i outcome => exact hticker
  | abandon i => exact hticker
  | elapse world => exact hticker

theorem moment?_of_unstarted (p : Plan ω) (t : Loop.Turn ω) {c : Chronicle ω}
    (h : (c.turn p t).loop.started = false) : c.loop.started = false ∧ t.moment? = none := by
  cases t with
  | serve s now =>
      simp only [turn] at h
      rcases serve_cases p s now c with ⟨-, heq⟩ | ⟨hstarted, heq | ⟨o, -, heq⟩⟩
      · rw [heq] at h
        cases h.symm.trans (Loop.started_start p now c.loop)
      · rw [heq] at h
        cases h.symm.trans hstarted
      · rw [heq] at h
        cases h.symm.trans (Loop.started_react p now o hstarted)
  | report i outcome => exact ⟨h, rfl⟩
  | abandon i => exact ⟨h, rfl⟩
  | elapse world => exact ⟨h, rfl⟩

theorem single_extend {p : Plan ω} {turns : List (Loop.Turn ω)} {c : Chronicle ω} (hc : c.Sound)
    (hfresh : c.Fresh) (hstrict : Strict p c) (hticker : c.loop.ticker = none) (h : Single p c)
    (hturns : c.loop.started = false → StartsUnscheduled p turns) :
    Single p (c.extend p turns) ∧ (c.extend p turns).loop.ticker = none := by
  induction turns generalizing c with
  | nil => exact ⟨h, hticker⟩
  | cons t turns ih =>
      obtain ⟨ds, hstep, hds⟩ := step_turn p t hc hfresh
      have hscheduled : (c.turn p t).deeds.attempts .scheduled = 0 := by
        rw [attempts_turn, h.scheduled, if_neg (Loop.triggered_ne_scheduled hticker)]
      have hstrict' := hstrict.step hstep
      rw [hds] at hscheduled
      have hsingle := h.step hstrict hstep hscheduled
      rw [← hds] at hstrict' hsingle
      have ht : c.loop.started = false → ∀ now, t.moment? = some now → p.Unscheduled now := by
        intro hstarted now hnow
        apply hturns hstarted now
        rw [List.findSome?_cons, hnow]
      refine ih (sound_turn p t hc) (fresh_turn p t hfresh) hstrict' (ticker_turn p t hticker ht)
        hsingle ?_
      intro hstarted now hnow
      obtain ⟨hbefore, hmoment⟩ := moment?_of_unstarted p t hstarted
      apply hturns hbefore now
      rw [List.findSome?_cons, hmoment]
      exact hnow

theorem single_run {p : Plan ω} {turns : List (Loop.Turn ω)} (h : StartsUnscheduled p turns)
    (world : ω) : Single p (run p world turns) ∧ (run p world turns).loop.ticker = none :=
  single_extend (sound_new world) (fun _ => ⟨world, rfl⟩) (Strict.new p world) rfl
    (Single.new p world) fun _ => h

theorem turn_of_unserved (p : Plan ω) (c : Chronicle ω) {t : Loop.Turn ω}
    (h : t.moment? = none) :
    ∃ submissions world, c.turn p t = ⟨{ c.loop with submissions, world }, c.deeds⟩ := by
  cases t with
  | serve s now => cases h
  | _ => exact ⟨_, _, rfl⟩

theorem serve_of_resting (p : Plan ω) {s : Signals} (now : Instant) {c : Chronicle ω}
    (h : c.loop.Resting) (hstop : s.stop = false) : c.serve p s now = c := by
  have hnext : c.loop.next? s = none := by
    simp [Loop.next?, Loop.hasEnded, Loop.outcome?, hstop, h.ending, h.ticker, h.backoff,
      h.tracked]
  rw [serve, if_pos h.started, hnext]

/-- A loop at rest stays as it is until it is stopped. -/
theorem extend_of_resting (p : Plan ω) {c : Chronicle ω} (h : c.loop.Resting)
    (more : List (Loop.Turn ω)) :
    (∃ submissions world, c.extend p more = ⟨{ c.loop with submissions, world }, c.deeds⟩) ∨
      more.any Loop.Turn.stops = true ∧ ∃ submissions world, c.extend p more =
        ⟨{ c.loop.stopping.finish .stopped with submissions, world },
          .cancel c.loop.tracked :: c.deeds⟩ := by
  induction more generalizing c with
  | nil => exact Or.inl ⟨_, _, rfl⟩
  | cons t more ih =>
      have hcons : c.extend p (t :: more) = (c.turn p t).extend p more := rfl
      rw [List.any_cons, Bool.or_eq_true, hcons]
      cases hmoment : t.moment? with
      | none =>
          obtain ⟨submissions, world, hturn⟩ := turn_of_unserved p c hmoment
          have hrest : (c.turn p t).loop.Resting := by
            rw [hturn]
            exact ⟨h.started, h.phase, h.tracked, h.backoff, h.ending, h.ticker⟩
          have hlater := ih hrest
          rw [hturn] at hlater ⊢
          exact hlater.imp_right (And.imp_left Or.inr)
      | some moment =>
          obtain ⟨s, rfl⟩ := Loop.Turn.eq_serve hmoment
          cases hstop : s.stop with
          | true =>
              have hserve : c.turn p (.serve s moment) = _ :=
                serve_of_stop p moment hstop ⟨h.started, h.ending⟩
              rw [hserve]
              exact Or.inr ⟨Or.inl hstop, extend_stopped p c more⟩
          | false =>
              have hserve : c.turn p (.serve s moment) = c := serve_of_resting p moment h hstop
              rw [hserve]
              exact (ih h).imp_right (And.imp_left Or.inr)

theorem enrolled_run (p : Plan ω) (world : ω) (turns : List (Loop.Turn ω)) :
    (run p world turns).Enrolled :=
  ((metered_new world).extend (sound_new world) (fun _ => ⟨world, rfl⟩) turns).enrolled

/-- What is left of a run that has had its success, whatever comes after it: no more attempts are
made, the keys stay, and the loop is idle until it is stopped. -/
structure Retired (c d : Chronicle ω) (more : List (Loop.Turn ω)) : Prop where
  bids : d.deeds.bids = c.deeds.bids
  slots : d.loop.slots = c.loop.slots
  phase : d.loop.phase = .idle ∧ d.loop.ending = none ∨
    d.loop.phase = .stopped ∧ d.loop.ending = some .finished
  unstopped : more.any Loop.Turn.stops = false →
    ∃ submissions world, d = ⟨{ c.loop with submissions, world }, c.deeds⟩

theorem retired_extend {p : Plan ω} {c : Chronicle ω} (hc : c.Sound)
    (hstarted : c.loop.started = true) (hticker : c.loop.ticker = none)
    (hphase : c.loop.phase = .idle ∧ c.loop.ending = none ∨
      c.loop.phase = .stopped ∧ c.loop.ending = some .finished)
    (more : List (Loop.Turn ω)) : Retired c (c.extend p more) more := by
  rcases hphase with ⟨hidle, hending⟩ | ⟨hstopped, hending⟩
  · have hresting : c.loop.Resting := hc.posture.resting hidle hstarted hending hticker
    rcases extend_of_resting p hresting more with ⟨submissions, world, heq⟩ |
      ⟨hstops, submissions, world, heq⟩
    · rw [heq]
      exact ⟨rfl, rfl, Or.inl ⟨hidle, hending⟩, fun _ => ⟨_, _, rfl⟩⟩
    · rw [heq]
      refine ⟨rfl, rfl, Or.inr ⟨rfl, rfl⟩, fun hnone => ?_⟩
      cases hnone.symm.trans hstops
  · obtain ⟨submissions, world, heq⟩ := extend_of_ended p hstarted (by rw [hending]; simp) more
    rw [heq]
    exact ⟨rfl, rfl, Or.inr ⟨hstopped, hending⟩, fun _ => ⟨_, _, rfl⟩⟩

/-- A run for which no rotation is scheduled makes one attempt, and one more for each backoff that
comes to its end, up to the limit. It brings one key into use at most; after that it makes no
attempt and changes no key, and it is idle until it is stopped. -/
theorem publishes_one_key (p : Plan ω) (world : ω) (turns : List (Loop.Turn ω))
    (h : StartsUnscheduled p turns) :
    let c := run p world turns
    (∀ bid, .attempt bid ∈ c.deeds → bid.trigger ≠ .scheduled) ∧
    c.deeds.bids.length =
      (if c.loop.started then 1 else 0) + (new world).backoffsElapsed p turns ∧
    c.deeds.bids.length ≤ p.limit ∧
    (c.loop.completed = c.deeds.promotions ∧ c.deeds.promotions ≤ 1) ∧
    ∀ t, .observe t (.ok ()) ∈ c.deeds → ∀ more, Retired c (c.extend p more) more ∧
      (c.extend p more).loop.submissions.length = c.loop.submissions.length := by
  intro c
  obtain ⟨hsingle, hticker⟩ : Single p c ∧ c.loop.ticker = none := single_run h world
  have hretries : c.deeds.attempts .retry = (new world).backoffsElapsed p turns :=
    (retries_extend p turns (sound_new world) fun _ => ⟨world, rfl⟩).trans (Nat.zero_add _)
  have hlength : c.deeds.bids.length =
      (if c.loop.started then 1 else 0) + (new world).backoffsElapsed p turns := by
    rw [← hretries, Deeds.length_bids, hsingle.scheduled, Nat.add_zero]
    cases hstarted : c.loop.started with
    | true => rw [hsingle.bootstrap hstarted, if_pos rfl]
    | false =>
        rw [hsingle.unstarted hstarted]
        rfl
  refine ⟨?_, hlength, ?_, ⟨hsingle.completed, hsingle.once⟩, ?_⟩
  · intro bid hbid htrigger
    have hnone := List.countP_eq_zero.mp hsingle.scheduled bid (Deeds.mem_bids.mpr hbid)
    exact hnone (decide_eq_true htrigger)
  · have hbounded := hsingle.bounded
    rw [hretries] at hbounded
    rw [hlength]
    split <;> omega
  · intro t ht more
    have hstarted : c.loop.started = true := by
      cases hc : c.loop.started with
      | true => rfl
      | false =>
          rw [hsingle.unstarted hc] at ht
          cases ht
    have hretired := retired_extend (p := p) (sound_run p world turns) hstarted hticker
      (hsingle.done (Deeds.promotions_ne_zero ht)) more
    refine ⟨hretired, ?_⟩
    have happend : c.extend p more = run p world (turns ++ more) :=
      (extend_append p (new world) turns more).symm
    have henrolled : (c.extend p more).Enrolled := by
      rw [happend]
      exact enrolled_run p world (turns ++ more)
    exact henrolled.trans
      ((congrArg (List.countP Bid.submitted) hretired.bids).trans (enrolled_run p world turns).symm)

end Chronicle

end

namespace Chronicle

/-- A plan with a period that is too long to be scheduled. Its source of keys fails once. -/
def hesitant [Scheme] : Plan Bool where
  settings := { Settings.new "issuer" "endpoint" with
    interval := some (.ofSecs (Nat.pow 2 63))
    maxAttempts := 2 }
  world := {
    draw := fun failed =>
      if failed then (.key (.numbered 1), true) else (.failed (.crypto "no entropy"), true)
    publish := fun _ _ _ world => (.accepted (some (.ok ())), world)
    escalate := fun _ => .returns }
  startedAt := 0

/-- A failure, a retry that succeeds, and then whatever may be due. -/
theorem publishes_one_key_retried :
    letI : Scheme := .plain
    let serve (tick backoff : Bool) : Loop.Turn Bool := .serve ⟨false, tick, backoff⟩ 0
    let turns := [serve false false, serve false false, serve false true, serve false false]
    let c := run hesitant false turns
    StartsUnscheduled hesitant turns ∧ c.deeds.bids.length = 2 ∧ c.deeds.promotions = 1 ∧
      ∀ n, (c.extend hesitant (List.replicate n (serve true true))).deeds.bids.length = 2 ∧
        (c.extend hesitant (List.replicate n (serve true true))).loop.phase = .idle := by
  let _ : Scheme := .plain
  let serve (tick backoff : Bool) : Loop.Turn Bool := .serve ⟨false, tick, backoff⟩ 0
  have hturns : StartsUnscheduled hesitant
      [serve false false, serve false false, serve false true, serve false false] := by
    intro now hnow d hd
    cases hnow
    cases hd
    exact Or.inr (by decide)
  obtain ⟨-, hlength, -, -, hretired⟩ := publishes_one_key hesitant false _ hturns
  have helapsed : (new false).backoffsElapsed hesitant
      [serve false false, serve false false, serve false true, serve false false] = 1 := by
    decide +kernel
  rw [helapsed] at hlength
  refine ⟨hturns, hlength, by decide +kernel, ?_⟩
  intro n
  obtain ⟨hretired, -⟩ := hretired (.submitted 0) List.mem_cons_self
    (List.replicate n (serve true true))
  have hunstopped : (List.replicate n (serve true true)).any Loop.Turn.stops = false := by
    simp [serve, Loop.Turn.stops]
  obtain ⟨submissions, world, heq⟩ := hretired.unstopped hunstopped
  refine ⟨(congrArg List.length hretired.bids).trans hlength, ?_⟩
  rw [heq]
  rfl

end Chronicle

end Keyring
