import Keyring.Proofs.Rotation.Chronicle
import Keyring.Proofs.Submission

namespace Keyring

open Rotation

variable [Scheme] {ω : Type}

def Tracked.amend (f : Submission → Submission) : Tracked → Submissions → Submissions
  | .submitted n, submissions => submissions.modify n f
  | _, submissions => submissions

namespace Loop

theorem cancel_eq (reason : String) (l : Loop ω) :
    l.cancel reason = { l with
      tracked := .inert
      submissions := l.tracked.amend Submission.cancel l.submissions
      metrics := if l.phase = .awaiting then l.metrics.cancel reason else l.metrics } := by
  unfold cancel
  by_cases hphase : l.phase = .awaiting <;> cases htracked : l.tracked <;>
    simp [hphase, htracked, meter, Tracked.amend]

theorem settle_eq (l : Loop ω) :
    l.settle = { l with
      tracked := .inert
      submissions := l.tracked.amend (fun s => s.poll.2.release) l.submissions } := by
  unfold settle
  cases htracked : l.tracked <;> simp [Tracked.amend]

/-- What becomes of a loop that makes an attempt: nothing if no key came or the key server crashed,
and else an attempt to await. -/
inductive Launch (w : World ω) (trigger : Trigger) (l : Loop ω) : Bid → Loop ω → Prop
  | undrawn {text : String} {world : ω} (hdraw : w.draw l.world = (.crashed text, world)) :
      Launch w trigger l ⟨trigger, l.slots.active, .crashed text, l.submissions, none⟩
        { l with
          metrics := l.metrics.attempt trigger.label
          world := world
          poisoned := true
          ending := some (.crashed text) }
  | failed {e : KeyError} {world : ω} (hdraw : w.draw l.world = (.failed e, world)) :
      Launch w trigger l
        ⟨trigger, l.slots.active, .failed e, l.submissions,
          some (.failed (.keyGeneration e.message))⟩
        ({ l with
          metrics := l.metrics.attempt trigger.label
          slots := l.slots.withdraw
          world := world
          tracked := .failed (.keyGeneration e.message) }.report .awaiting)
  | crashed {k : SigningKey} {between world : ω} {text : String}
      (hdraw : w.draw l.world = (.key k, between))
      (hpublish : w.publish k.jwk (l.slots.active.getD k) l.submissions between =
        (.crashed text, world)) :
      Launch w trigger l ⟨trigger, l.slots.active, .key k, l.submissions, none⟩
        { l with
          metrics := l.metrics.attempt trigger.label
          slots := l.slots.propose k
          world := world
          log := Attempt.submitted k (l.slots.active.getD k) l.slots.active.isNone :: l.log
          poisoned := true
          ending := some (.crashed text) }
  | accepted {k : SigningKey} {between world : ω} {outcome : Option Outcome}
      (hdraw : w.draw l.world = (.key k, between))
      (hpublish : w.publish k.jwk (l.slots.active.getD k) l.submissions between =
        (.accepted outcome, world)) :
      Launch w trigger l
        ⟨trigger, l.slots.active, .key k, l.submissions, some (.submitted l.submissions.length)⟩
        ({ l with
          metrics := l.metrics.attempt trigger.label
          slots := l.slots.propose k
          submissions := l.submissions ++ [Submission.opened outcome]
          world := world
          log := Attempt.submitted k (l.slots.active.getD k) l.slots.active.isNone :: l.log
          tracked := .submitted l.submissions.length }.report .awaiting)

theorem launch_spec (w : World ω) (trigger : Trigger) (l : Loop ω) :
    Launch w trigger l (l.bid w trigger) (l.launch w trigger) := by
  rcases hdraw : w.draw l.world with ⟨draw, between⟩
  cases draw with
  | crashed text =>
      simp only [bid, launch, Attempt.make, hdraw]
      exact .undrawn hdraw
  | failed e =>
      simp only [bid, launch, Attempt.make, hdraw]
      exact .failed hdraw
  | key k =>
      rcases hpublish : w.publish k.jwk (l.slots.active.getD k) l.submissions between with
        ⟨reply, world⟩
      cases reply with
      | crashed text =>
          simp only [bid, launch, Attempt.make, hdraw, hpublish]
          exact .crashed hdraw hpublish
      | accepted outcome =>
          simp only [bid, launch, Attempt.make, hdraw, hpublish]
          exact .accepted hdraw hpublish

theorem schedule_eq (now : Instant) (s : Settings) (l : Loop ω) :
    ∃ ticker log, l.schedule now s = { l with ticker := ticker, log := log } := by
  unfold schedule
  split
  · exact ⟨_, _, rfl⟩
  · split
    · exact ⟨_, _, rfl⟩
    · exact ⟨_, _, rfl⟩
  · exact ⟨_, _, rfl⟩

def starting (p : Plan ω) (l : Loop ω) : Loop ω :=
  (l.report .bootstrapping).note (Notice.bootstrapping p.settings)

theorem start_spec (p : Plan ω) (now : Instant) (l : Loop ω) :
    ∃ launched ticker log,
      Launch p.world .bootstrap (l.starting p) (l.bid p.world .bootstrap) launched ∧
      l.start p now = { launched with ticker := ticker, log := log } := by
  have hlaunch := launch_spec p.world .bootstrap (l.starting p)
  unfold start
  dsimp only
  split
  · exact ⟨_, _, _, hlaunch, rfl⟩
  · obtain ⟨ticker, log, h⟩ := schedule_eq now p.settings
      ((l.starting p).launch p.world .bootstrap)
    exact ⟨_, ticker, log, hlaunch, h⟩

def superseding (now : Instant) (l : Loop ω) : Loop ω := { l with
  ticker := l.ticker.map (Ticker.advance now)
  backoff := none
  tracked := .inert
  submissions := l.tracked.amend Submission.cancel l.submissions
  log := Notice.rotating l.slots.activeId l.slots.pendingId :: l.log
  metrics := if l.phase = .awaiting then l.metrics.cancel "superseded" else l.metrics }

theorem rotate_eq (p : Plan ω) (now : Instant) (l : Loop ω) :
    l.rotate p now = (l.superseding now).launch p.world .scheduled := by
  simp only [rotate, cancel_eq, note, superseding]

theorem rotate_spec (p : Plan ω) (now : Instant) (l : Loop ω) :
    Launch p.world .scheduled (l.superseding now)
      ((l.cancel "superseded").bid p.world .scheduled) (l.rotate p now) := by
  have hbid : (l.cancel "superseded").bid p.world .scheduled =
      (l.superseding now).bid p.world .scheduled := by
    simp only [cancel_eq, bid, superseding]
  rw [rotate_eq, hbid]
  exact launch_spec _ _ _

def retrying (l : Loop ω) : Loop ω :=
  { l with backoff := none }.note (Notice.retrying (l.failures + 1))

theorem retry_spec (p : Plan ω) (l : Loop ω) :
    Launch p.world .retry l.retrying (l.bid p.world .retry) (l.retry p) :=
  launch_spec p.world .retry l.retrying

theorem next?_cases {s : Signals} {l : Loop ω} {o : Occurrence} (h : l.next? s = some o) :
    l.ending = none ∧
      match o with
      | .stop => s.stop = true
      | .tick => l.ticker.isSome = true ∧ s.tick = true
      | .retry => l.backoff.isSome = true ∧ s.backoff = true
      | .outcome o => l.outcome? = some o := by
  have hending : l.ending = none := by
    simpa [hasEnded] using hasEnded_eq_false_of_next? h
  refine ⟨hending, ?_⟩
  unfold next? at h
  split at h
  · cases h
  split at h
  · rename_i hstop
    cases h
    exact hstop
  split at h
  · rename_i htick
    cases h
    simpa [and_comm] using htick
  split at h
  · rename_i hbackoff
    cases h
    simpa [and_comm] using hbackoff
  · obtain ⟨outcome, houtcome, rfl⟩ := Option.map_eq_some_iff.mp h
    exact houtcome

theorem outcome?_cases {l : Loop ω} {o : Outcome} (h : l.outcome? = some o) :
    (∃ e, l.tracked = .failed e ∧ o = .error e) ∨
      ∃ n s, l.tracked = .submitted n ∧ l.submissions[n]? = some s ∧ s.cancelled = false ∧
        s.report = .ready o := by
  unfold outcome? at h
  split at h
  · cases h
  · rename_i e htracked
    cases h
    exact Or.inl ⟨e, htracked, rfl⟩
  · rename_i n htracked
    obtain ⟨s, hs, hout⟩ := Option.bind_eq_some_iff.mp h
    exact Or.inr ⟨n, s, htracked, hs, Submission.of_outcome? hout⟩

theorem report_of_outcome? {l : Loop ω} {o : Outcome} {n : Nat} {s : Submission}
    (h : l.outcome? = some o) (htracked : l.tracked = .submitted n)
    (hs : l.submissions[n]? = some s) : s.report = .ready o := by
  rcases outcome?_cases h with ⟨e, hfailed, -⟩ | ⟨m, r, hm, hr, -, hreport⟩
  · rw [htracked] at hfailed
    cases hfailed
  · rw [htracked] at hm
    cases hm
    rw [hs] at hr
    cases hr
    exact hreport

end Loop

end Keyring
