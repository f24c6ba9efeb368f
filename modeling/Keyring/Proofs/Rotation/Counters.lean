import Keyring.Proofs.Rotation.FailStop
import Keyring.Proofs.Rotation.Statuses
import Keyring.Proofs.Rotation.Stop

namespace Keyring

open Rotation

namespace Metrics

variable (m : Metrics)

/-- The attempts that were counted, whatever they were made for. -/
def attempted : Nat :=
  m.attempts.count "bootstrap" + m.attempts.count "scheduled" + m.attempts.count "retry"

/-- The attempts that were counted as over: they gave an outcome, or they were cancelled. -/
def concluded : Nat :=
  m.results.count "success" + m.results.count "error" +
    (m.cancelled.count "superseded" + m.cancelled.count "shutdown")

theorem attempted_attempt (trigger : Trigger) :
    (m.attempt trigger.label).attempted = m.attempted + 1 := by
  cases trigger <;> simp [attempted, attempt, Trigger.label, Tally.count_add] <;> omega

theorem count_bootstrap_attempt (trigger : Trigger) :
    (m.attempt trigger.label).attempts.count "bootstrap" =
      m.attempts.count "bootstrap" + if trigger = .bootstrap then 1 else 0 := by
  cases trigger <;> simp [attempt, Trigger.label, Tally.count_add]

theorem count_retry_attempt (trigger : Trigger) :
    (m.attempt trigger.label).attempts.count "retry" =
      m.attempts.count "retry" + if trigger = .retry then 1 else 0 := by
  cases trigger <;> simp [attempt, Trigger.label, Tally.count_add]

theorem concluded_result {status : String} (h : status = "success" ∨ status = "error") :
    (m.result status).concluded = m.concluded + 1 := by
  rcases h with rfl | rfl <;> simp [concluded, result, Tally.count_add] <;> omega

theorem concluded_cancel {reason : String} (h : reason = "superseded" ∨ reason = "shutdown") :
    (m.cancel reason).concluded = m.concluded + 1 := by
  rcases h with rfl | rfl <;> simp [concluded, cancel, Tally.count_add] <;> omega

end Metrics

section

variable [Scheme] {ω : Type}

/-- The attempt came to nothing because no key could be made for it. -/
def Bid.keyless (bid : Bid) : Bool :=
  match bid.draw with
  | .failed _ => true
  | _ => false

/-- The attempt was handed to the key server, which took it. -/
def Bid.submitted (bid : Bid) : Bool :=
  match bid.operation with
  | some (.submitted _) => true
  | _ => false

namespace Deed

def cancels : Deed → Bool
  | .cancel _ => true
  | _ => false

end Deed

namespace Loop

/-- A tick or a stop ends the backoff in this turn, before its time. -/
def cutsBackoff (l : Loop ω) : Turn ω → Bool
  | .serve s _ => l.phase = .backingOff && (l.next? s = some .tick || l.next? s = some .stop)
  | _ => false

end Loop

namespace Chronicle

/-- The backoffs that a tick or a stop cuts short in these turns. -/
def backoffsCut (p : Plan ω) (c : Chronicle ω) : List (Loop.Turn ω) → Nat
  | [] => 0
  | t :: turns => (if c.loop.cutsBackoff t then 1 else 0) + (c.turn p t).backoffsCut p turns

end Chronicle

/-- The counters of a loop that has begun and has not been cut off. -/
structure Balanced (l : Loop ω) (bids : List Bid) (cuts : Nat) : Prop where
  concluded : l.metrics.attempted = l.metrics.concluded + if l.phase = .awaiting then 1 else 0
  bootstrap : l.metrics.attempts.count "bootstrap" = 1
  success : l.metrics.results.count "success" = l.completed
  fatal : l.metrics.fatal = if l.phase = .failed then 1 else 0
  error : l.metrics.results.count "error" = l.metrics.attempts.count "retry" + cuts +
    (if l.phase = .backingOff then 1 else 0) + l.metrics.fatal
  bids : l.metrics.attempted = bids.countP Bid.submitted + bids.countP Bid.keyless

namespace Loop

/-- The loop has begun, and it goes on or has come to its end by itself. -/
def Intact (l : Loop ω) : Prop :=
  l.started = true ∧ (l.ending = none ∨ l.ending = some .finished)

theorem Running.phase_ne {l : Loop ω} (h : l.Running) (hposture : l.Posture) {phase : Phase}
    (hphase : phase.isTerminal = true) : l.phase ≠ phase := by
  rintro rfl
  exact (hposture.stance h).not_terminal hphase

theorem Launch.metered {w : World ω} {trigger : Trigger} {l l' : Loop ω} {bid : Bid}
    (h : Launch w trigger l bid l') :
    (∃ text, l'.ending = some (.crashed text)) ∨
      l'.metrics = l.metrics.attempt trigger.label ∧ l'.phase = .awaiting ∧
        l'.completed = l.completed ∧ bid.submitted.toNat + bid.keyless.toNat = 1 := by
  cases h with
  | undrawn hdraw => exact Or.inl ⟨_, rfl⟩
  | failed hdraw => exact Or.inr ⟨rfl, rfl, rfl, rfl⟩
  | crashed hdraw hpublish => exact Or.inl ⟨_, rfl⟩
  | accepted hdraw hpublish => exact Or.inr ⟨rfl, rfl, rfl, rfl⟩

theorem Launch.length_submissions {w : World ω} {trigger : Trigger} {l l' : Loop ω} {bid : Bid}
    (h : Launch w trigger l bid l') :
    l'.submissions.length = l.submissions.length + [bid].countP Bid.submitted := by
  cases h with
  | undrawn hdraw => rfl
  | failed hdraw => rfl
  | crashed hdraw hpublish => rfl
  | accepted hdraw hpublish => exact List.length_append

theorem Launch.balanced {w : World ω} {trigger : Trigger} {l l' : Loop ω} {bid : Bid}
    (h : Launch w trigger l bid l') (hintact : l'.Intact) {bids : List Bid} {cuts : Nat}
    (hconcluded : l.metrics.attempted = l.metrics.concluded)
    (hbootstrap : l.metrics.attempts.count "bootstrap" +
      (if trigger = .bootstrap then 1 else 0) = 1)
    (hsuccess : l.metrics.results.count "success" = l.completed) (hfatal : l.metrics.fatal = 0)
    (herror : l.metrics.results.count "error" = l.metrics.attempts.count "retry" +
      (if trigger = .retry then 1 else 0) + cuts)
    (hbids : l.metrics.attempted = bids.countP Bid.submitted + bids.countP Bid.keyless) :
    Balanced l' (bid :: bids) cuts := by
  rcases h.metered with ⟨text, hcrashed⟩ | ⟨hmetrics, hphase, hcompleted, hbid⟩
  · rcases hintact.2 with hnone | hfinished
    · rw [hcrashed] at hnone
      cases hnone
    · rw [hcrashed] at hfinished
      cases hfinished
  · refine ⟨?_, ?_, ?_, ?_, ?_, ?_⟩
    · rw [hmetrics, Metrics.attempted_attempt, hconcluded, hphase]
      rfl
    · rw [hmetrics, Metrics.count_bootstrap_attempt, hbootstrap]
    · rw [hmetrics, hcompleted]
      exact hsuccess
    · rw [hmetrics, hphase]
      exact hfatal
    · rw [hmetrics, Metrics.count_retry_attempt, hphase]
      show l.metrics.results.count "error" = _ + l.metrics.fatal
      rw [hfatal, herror]
      simp
    · rw [hmetrics, Metrics.attempted_attempt, hbids, List.countP_cons, List.countP_cons]
      cases hs : bid.submitted <;> cases hk : bid.keyless <;> simp_all <;> omega

end Loop

namespace Balanced

variable {p : Plan ω} {l l' : Loop ω} {bids : List Bid} {cuts : Nat}

theorem of_same (h : Balanced l bids cuts) (hmetrics : l'.metrics = l.metrics)
    (hphase : l'.phase = l.phase) (hcompleted : l'.completed = l.completed) :
    Balanced l' bids cuts := by
  obtain ⟨hconcluded, hbootstrap, hsuccess, hfatal, herror, hbids⟩ := h
  rw [← hmetrics] at hconcluded hbootstrap hsuccess hfatal herror hbids
  rw [← hphase] at hconcluded hfatal herror
  rw [← hcompleted] at hsuccess
  exact ⟨hconcluded, hbootstrap, hsuccess, hfatal, herror, hbids⟩

/-- With what is awaited cancelled and counted as such, every attempt is over. -/
theorem cancel (h : Balanced l bids cuts) {reason : String}
    (hreason : reason = "superseded" ∨ reason = "shutdown") {m : Metrics}
    (hm : m = if l.phase = .awaiting then l.metrics.cancel reason else l.metrics) :
    m.attempted = m.concluded ∧ m.attempts = l.metrics.attempts ∧
      m.results = l.metrics.results ∧ m.fatal = l.metrics.fatal := by
  have hconcluded := h.concluded
  by_cases hphase : l.phase = .awaiting
  · rw [if_pos hphase] at hm hconcluded
    subst hm
    rw [Metrics.concluded_cancel _ hreason]
    exact ⟨hconcluded, rfl, rfl, rfl⟩
  · rw [if_neg hphase] at hm hconcluded
    subst hm
    exact ⟨hconcluded, rfl, rfl, rfl⟩

theorem halt (h : Balanced l bids cuts) (hfatal : l.metrics.fatal = 0) :
    Balanced (l.stopping.finish .stopped) bids
      (cuts + if l.phase = .backingOff then 1 else 0) := by
  obtain ⟨hconcluded, hattempts, hresults, hsame⟩ :=
    h.cancel (Or.inr rfl) (m := l.stopping.metrics) rfl
  refine ⟨hconcluded, ?_, ?_, hsame.trans hfatal, ?_, ?_⟩
  · show l.stopping.metrics.attempts.count _ = _
    rw [hattempts, h.bootstrap]
  · show l.stopping.metrics.results.count _ = _
    rw [hresults, h.success]
    rfl
  · show l.stopping.metrics.results.count _ = l.stopping.metrics.attempts.count _ + _ + 0 +
      l.stopping.metrics.fatal
    rw [hresults, hattempts, hsame, h.error]
    omega
  · show l.stopping.metrics.attempted = _
    rw [Metrics.attempted, hattempts]
    exact h.bids

theorem rotate (h : Balanced l bids cuts) (hfatal : l.metrics.fatal = 0) {now : Instant}
    {bid : Bid} (hlaunch : Loop.Launch p.world .scheduled (l.superseding now) bid l')
    (hintact : l'.Intact) :
    Balanced l' (bid :: bids) (cuts + if l.phase = .backingOff then 1 else 0) := by
  obtain ⟨hconcluded, hattempts, hresults, hsame⟩ :=
    h.cancel (Or.inl rfl) (m := (l.superseding now).metrics) rfl
  apply hlaunch.balanced hintact hconcluded
  · rw [hattempts]
    exact h.bootstrap
  · rw [hresults]
    exact h.success
  · exact hsame.trans hfatal
  · show _ = _ + 0 + _
    rw [hresults, hattempts, h.error, hfatal]
    omega
  · rw [Metrics.attempted, hattempts]
    exact h.bids

theorem retry (h : Balanced l bids cuts) (hfatal : l.metrics.fatal = 0)
    (hphase : l.phase = .backingOff) {bid : Bid}
    (hlaunch : Loop.Launch p.world .retry l.retrying bid l') (hintact : l'.Intact) :
    Balanced l' (bid :: bids) cuts := by
  have hconcluded := h.concluded
  have herror := h.error
  rw [hphase] at hconcluded herror
  apply hlaunch.balanced hintact hconcluded h.bootstrap h.success hfatal _ h.bids
  show l.metrics.results.count "error" = l.metrics.attempts.count "retry" + 1 + cuts
  rw [herror, hfatal, if_pos rfl]
  omega

theorem confirm (h : Balanced l bids cuts) (hphase : l.phase = .awaiting) (now : Instant) :
    Balanced (l.observing.confirm p now) bids cuts := by
  obtain ⟨hconcluded, hbootstrap, hsuccess, hfatal, herror, hbids⟩ := h
  rw [hphase] at hconcluded hfatal herror
  have hcount (status : String) : (l.observing.confirm p now).metrics.results.count status =
      l.metrics.results.count status + if status = "success" then 1 else 0 :=
    Tally.count_add _ _ _
  refine ⟨?_, hbootstrap, ?_, hfatal, ?_, hbids⟩
  · show l.metrics.attempted = (l.metrics.result "success").concluded + 0
    rw [Metrics.concluded_result _ (Or.inl rfl), hconcluded]
    rfl
  · rw [hcount, hsuccess]
    rfl
  · rw [hcount, herror]
    rfl

theorem refuse (h : Balanced l bids cuts) (hphase : l.phase = .awaiting) {now : Instant}
    {e : PublishError} (hrefusal : Loop.Refusal p now e l.observing l') (hintact : l'.Intact) :
    Balanced l' bids cuts := by
  obtain ⟨hconcluded, hbootstrap, hsuccess, hfatal, herror, hbids⟩ := h
  rw [hphase] at hconcluded hfatal herror
  have hone := Metrics.concluded_result l.metrics (Or.inr rfl : "error" = "success" ∨ _)
  have hcount (status : String) : (l.metrics.result "error").results.count status =
      l.metrics.results.count status + if status = "error" then 1 else 0 :=
    Tally.count_add _ _ _
  cases hrefusal with
  | backedOff hlt =>
      refine ⟨?_, hbootstrap, (hcount _).trans hsuccess, hfatal, ?_, hbids⟩
      · exact hconcluded.trans hone.symm
      · show (l.metrics.result "error").results.count "error" =
          l.metrics.attempts.count "retry" + cuts + 1 + l.metrics.fatal
        rw [hcount, herror, hfatal]
        rfl
  | returned hge hescalate =>
      refine ⟨?_, hbootstrap, (hcount _).trans hsuccess, ?_, ?_, hbids⟩
      · exact hconcluded.trans hone.symm
      · show l.metrics.fatal + 1 = 1
        rw [hfatal]
        rfl
      · show (l.metrics.result "error").results.count "error" =
          l.metrics.attempts.count "retry" + cuts + 0 + (l.metrics.fatal + 1)
        rw [hcount, herror]
        rfl
  | crashed hge hescalate => rcases hintact.2 with h | h <;> cases h
  | exited hge hescalate => rcases hintact.2 with h | h <;> cases h

end Balanced

namespace Loop

variable {p : Plan ω} {l l' : Loop ω} {ds : Deeds}

/-- What a step does is counted. A loop that is cut off in it has no balance. -/
theorem Step.balanced (h : Step p l ds l') (hposture : l.Posture) (hintact : l'.Intact)
    {bids : List Bid} {cuts : Nat} (hl : l.Intact → Balanced l bids cuts)
    (hfresh : l.started = false → bids = [] ∧ cuts = 0) :
    Balanced l' (ds.bids ++ bids)
      (cuts + if l.phase = .backingOff ∧ ds.any Deed.cancels = true then 1 else 0) := by
  have hbalanced (hrunning : l.Running) : Balanced l bids cuts := hl ⟨hrunning.1, Or.inl hrunning.2⟩
  have hfatal (hrunning : l.Running) : l.metrics.fatal = 0 :=
    (hbalanced hrunning).fatal.trans (if_neg (hrunning.phase_ne hposture rfl))
  cases h with
  | outside submissions world =>
      rw [if_neg (by simp)]
      exact (hl hintact).of_same rfl rfl rfl
  | begun hnew hbid hlaunch =>
      obtain ⟨rfl, rfl⟩ := hfresh (by rw [hnew]; rfl)
      rw [hnew] at hlaunch ⊢
      have hbegun : Balanced _ [_] 0 := hlaunch.balanced hintact rfl rfl rfl rfl rfl rfl
      exact hbegun.of_same rfl rfl rfl
  | halted hrunning =>
      have hhalt := (hbalanced hrunning).halt (hfatal hrunning)
      simpa [Deeds.bids, Deed.cancels] using hhalt
  | rotated hrunning hlaunch =>
      have hrotate := (hbalanced hrunning).rotate (hfatal hrunning) hlaunch hintact
      simpa [Deeds.bids, Deed.cancels] using hrotate
  | retried hrunning hphase hlaunch =>
      have hretry := (hbalanced hrunning).retry (hfatal hrunning) hphase hlaunch hintact
      simpa [Deeds.bids, Deed.cancels] using hretry
  | @confirmed now hrunning hphase hout =>
      have hconfirm := (hbalanced hrunning).confirm (p := p) hphase now
      simpa [Deeds.bids, Deed.cancels] using hconfirm
  | refused hrunning hphase hout hrefusal =>
      have hrefuse := (hbalanced hrunning).refuse hphase hrefusal hintact
      simpa [Deeds.bids, Deed.cancels] using hrefuse

theorem Step.length_submissions (h : Step p l ds l') (hds : ds ≠ []) :
    l'.submissions.length = l.submissions.length + ds.bids.countP Bid.submitted := by
  cases h with
  | outside submissions world => exact absurd rfl hds
  | begun hnew hbid hlaunch => exact hlaunch.length_submissions
  | halted hrunning => exact Tracked.length_amend
  | rotated hrunning hlaunch =>
      exact hlaunch.length_submissions.trans (congrArg (· + _) Tracked.length_amend)
  | retried hrunning hphase hlaunch => exact hlaunch.length_submissions
  | confirmed hrunning hphase hout => exact Tracked.length_amend
  | refused hrunning hphase hout hrefusal =>
      have hsame : l'.submissions = l.observing.submissions := by cases hrefusal <;> rfl
      rw [hsame]
      exact Tracked.length_amend

end Loop

namespace Chronicle

/-- Every publication that was handed to the key server is one of an attempt. -/
def Enrolled (c : Chronicle ω) : Prop :=
  c.loop.submissions.length = c.deeds.bids.countP Bid.submitted

theorem enrolled_step {p : Plan ω} {c : Chronicle ω} {ds : Deeds} {l : Loop ω} (h : c.Enrolled)
    (hstep : Loop.Step p c.loop ds l) (hds : ds ≠ []) : Enrolled ⟨l, ds ++ c.deeds⟩ := by
  unfold Enrolled at h ⊢
  rw [hstep.length_submissions hds, h, Deeds.bids, Deeds.bids, Deeds.bids, List.filterMap_append,
    List.countP_append]
  exact Nat.add_comm _ _

theorem enrolled_turn (p : Plan ω) (t : Loop.Turn ω) {c : Chronicle ω} (hc : c.Sound)
    (hfresh : c.Fresh) (h : c.Enrolled) : (c.turn p t).Enrolled := by
  cases t with
  | serve s now =>
      simp only [turn]
      rcases serve_cases p s now c with ⟨hstarted, heq⟩ | ⟨hstarted, heq | ⟨o, hnext, heq⟩⟩
      · obtain ⟨world, rfl⟩ := hfresh hstarted
        rw [heq]
        exact enrolled_step h (Loop.step_start p now rfl) (List.cons_ne_nil _ _)
      · rw [heq]
        exact h
      · rw [heq]
        apply enrolled_step h (Loop.step_react p s now hc.posture hstarted hnext)
        cases o <;> exact List.cons_ne_nil _ _
  | report i outcome => exact (List.length_modify _ _ _).trans h
  | abandon i => exact (List.length_modify _ _ _).trans h
  | elapse world => exact h

theorem cutsBackoff_iff (p : Plan ω) (t : Loop.Turn ω) {c : Chronicle ω} (hfresh : c.Fresh)
    {ds : Deeds} (hds : (c.turn p t).deeds = ds ++ c.deeds) :
    c.loop.cutsBackoff t = true ↔ c.loop.phase = .backingOff ∧ ds.any Deed.cancels = true := by
  have hidle (heq : (c.turn p t).deeds = c.deeds) : ds = [] :=
    List.append_left_eq_self.mp (hds.symm.trans heq)
  cases t with
  | serve s now =>
      cases hstarted : c.loop.started with
      | false =>
          obtain ⟨world, rfl⟩ := hfresh hstarted
          simp [Loop.cutsBackoff, new, Loop.new]
      | true =>
          cases hnext : c.loop.next? s with
          | none =>
              obtain rfl := hidle (by simp [turn, serve, hstarted, hnext])
              simp [Loop.cutsBackoff, hnext]
          | some o =>
              have hdeeds : c.loop.deeds p o ++ c.deeds = ds ++ c.deeds := by
                rw [← hds]
                simp [turn, serve, hstarted, hnext]
              obtain rfl := List.append_cancel_right hdeeds
              cases o <;> simp [Loop.cutsBackoff, hnext, Loop.deeds, Deed.cancels]
  | report i outcome =>
      obtain rfl := hidle rfl
      simp [Loop.cutsBackoff]
  | abandon i =>
      obtain rfl := hidle rfl
      simp [Loop.cutsBackoff]
  | elapse world =>
      obtain rfl := hidle rfl
      simp [Loop.cutsBackoff]

/-- The counters of a run so far, in which so many backoffs were cut short. -/
structure Metered (c : Chronicle ω) (cuts : Nat) : Prop where
  balanced : c.loop.Intact → Balanced c.loop c.deeds.bids cuts
  enrolled : c.Enrolled
  fresh : c.loop.started = false → cuts = 0

theorem metered_new (world : ω) : (new world).Metered 0 where
  balanced h := by cases h.1
  enrolled := rfl
  fresh _ := rfl

theorem Metered.turn {p : Plan ω} {c : Chronicle ω} {cuts : Nat} (h : c.Metered cuts)
    (hc : c.Sound) (hfresh : c.Fresh) (t : Loop.Turn ω) :
    (c.turn p t).Metered (cuts + if c.loop.cutsBackoff t then 1 else 0) := by
  obtain ⟨ds, hstep, hds⟩ := step_turn p t hc hfresh
  have hunstarted (hstarted : c.loop.started = false) :
      c.deeds.bids = [] ∧ c.loop.phase = .bootstrapping := by
    obtain ⟨world, rfl⟩ := hfresh hstarted
    exact ⟨rfl, rfl⟩
  have hcut := cutsBackoff_iff p t hfresh hds
  refine ⟨?_, enrolled_turn p t hc hfresh h.enrolled, ?_⟩
  · intro hintact
    have hbalanced := hstep.balanced hc.posture hintact h.balanced
      fun hstarted => ⟨(hunstarted hstarted).1, h.fresh hstarted⟩
    simp only [hcut, hds, Deeds.bids, List.filterMap_append]
    exact hbalanced
  · intro hstarted
    have hbefore : c.loop.started = false := by
      cases hc : c.loop.started with
      | false => rfl
      | true => exact absurd (hstep.started hc) (by simp [hstarted])
    rw [h.fresh hbefore, if_neg]
    rw [hcut, (hunstarted hbefore).2]
    rintro ⟨hphase, -⟩
    cases hphase

theorem Metered.extend {p : Plan ω} {c : Chronicle ω} {cuts : Nat} (h : c.Metered cuts)
    (hc : c.Sound) (hfresh : c.Fresh) (turns : List (Loop.Turn ω)) :
    (c.extend p turns).Metered (cuts + c.backoffsCut p turns) := by
  induction turns generalizing c cuts with
  | nil => exact h
  | cons t turns ih =>
      have hturn := ih (h.turn hc hfresh t) (sound_turn p t hc) (fresh_turn p t hfresh)
      rw [Nat.add_assoc] at hturn
      exact hturn

/-- Every attempt is counted, once when it is made and once when it is over, as long as the loop is
not cut off; an attempt is a publication that the key server was handed, or no key came for it. Each
error is followed by a retry, by a backoff that lasts or is cut short, or by the end. -/
theorem metrics_account (p : Plan ω) (world : ω) (turns : List (Loop.Turn ω)) :
    let c := run p world turns
    let m := c.loop.metrics
    c.loop.started = true → c.loop.ending = none ∨ c.loop.ending = some .finished →
      m.attempted = m.concluded + (if c.loop.phase = .awaiting then 1 else 0) ∧
      m.attempts.count "bootstrap" = 1 ∧
      m.results.count "success" = c.loop.completed ∧
      m.fatal = (if c.loop.phase = .failed then 1 else 0) ∧
      m.results.count "error" = m.attempts.count "retry" + (new world).backoffsCut p turns +
        (if c.loop.phase = .backingOff then 1 else 0) + m.fatal ∧
      m.attempted = c.loop.submissions.length + c.deeds.bids.countP Bid.keyless := by
  intro c m hstarted hending
  have hmetered : c.Metered (0 + (new world).backoffsCut p turns) :=
    (metered_new world).extend (sound_new world) (fun _ => ⟨world, rfl⟩) turns
  rw [Nat.zero_add] at hmetered
  obtain ⟨hconcluded, hbootstrap, hsuccess, hfatal, herror, hbids⟩ :=
    hmetered.balanced ⟨hstarted, hending⟩
  refine ⟨hconcluded, hbootstrap, hsuccess, hfatal, herror, ?_⟩
  rw [hmetered.enrolled]
  exact hbids

end Chronicle

end

namespace Chronicle

/-- Two failures, the first followed by a tick and the second by a retry, and then a stop. -/
def mixedTurns : List (Loop.Turn Unit) :=
  [.serve ⟨false, false, false⟩ 0, .serve ⟨false, false, false⟩ 0, .serve ⟨false, true, true⟩ 1,
    .serve ⟨false, false, false⟩ 1, .serve ⟨false, false, true⟩ 2, .serve ⟨true, false, false⟩ 3]

theorem metrics_account_mixed :
    letI : Scheme := .plain
    let c := run (barren 3) () mixedTurns
    let m := c.loop.metrics
    c.loop.started = true ∧ c.loop.ending = some .finished ∧ m.attempted = 3 ∧
      m.attempted = m.concluded ∧ m.results.count "error" = m.attempts.count "retry" + 1 ∧
      m.attempted = c.deeds.bids.countP Bid.keyless := by
  let _ : Scheme := .plain
  have hcuts : (new ()).backoffsCut (barren 3) mixedTurns = 1 := by decide +kernel
  have hphase : (run (barren 3) () mixedTurns).loop.phase = .stopped := by decide +kernel
  have hlength : (run (barren 3) () mixedTurns).loop.submissions.length = 0 := by decide +kernel
  have hstarted : (run (barren 3) () mixedTurns).loop.started = true := by decide +kernel
  have hending : (run (barren 3) () mixedTurns).loop.ending = some .finished := by decide +kernel
  have hattempted : (run (barren 3) () mixedTurns).loop.metrics.attempted = 3 := by decide +kernel
  have haccount := metrics_account (barren 3) () mixedTurns hstarted (Or.inr hending)
  -- from here on the run must not be computed again
  generalize run (barren 3) () mixedTurns = c at *
  obtain ⟨hconcluded, -, -, hfatal, herror, hbids⟩ := haccount
  simp only [hphase, hfatal, hcuts, hlength, reduceCtorEq, if_false, Nat.add_zero,
    Nat.zero_add] at hconcluded herror hbids
  exact ⟨hstarted, hending, hattempted, hconcluded, herror, hbids⟩

end Chronicle

end Keyring
