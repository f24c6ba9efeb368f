import Keyring.Proofs.Rotation.Backoff
import Keyring.Proofs.Rotation.Stop

namespace Keyring

open Rotation

theorem Stance.backoff_of_backingOff {tracked : Tracked} {backoff : Option Instant}
    (h : Stance true .backingOff tracked backoff none) : backoff ≠ none := by
  cases h with
  | backingOff deadline => exact Option.some_ne_none deadline

section

variable [Scheme] {ω : Type}

/-- The fresh key that an attempt was made with, if it got one. -/
def Bid.key? (bid : Bid) : Option SigningKey :=
  match bid.draw with
  | .key k => some k
  | _ => none

namespace Deeds

def Failed (ds : Deeds) : Prop := ∃ t e, .observe t (.error e) ∈ ds

/-- A retry is always made after a failure, which is among these deeds as well. -/
def RetriesFailed (ds : Deeds) : Prop :=
  ∀ (later : Deeds) (bid : Bid) (before : Deeds), ds = later ++ .attempt bid :: before →
    bid.trigger = .retry → before.Failed

theorem retriesFailed_nil : RetriesFailed [] := by
  intro later bid before h
  simp at h

theorem RetriesFailed.attempt {ds : Deeds} (h : ds.RetriesFailed) {bid : Bid}
    (hbid : bid.trigger = .retry → ds.Failed) : RetriesFailed (.attempt bid :: ds) := by
  intro later other before heq htrigger
  rcases List.cons_eq_append_iff.mp heq with ⟨-, hbefore⟩ | ⟨rest, -, hrest⟩
  · obtain ⟨hother, rfl⟩ := List.cons.inj hbefore
    obtain rfl := Deed.attempt.inj hother
    exact hbid htrigger
  · exact h rest other before hrest htrigger

theorem RetriesFailed.cons_of_ne {ds : Deeds} (h : ds.RetriesFailed) {d : Deed}
    (hd : ∀ bid, d ≠ .attempt bid) : RetriesFailed (d :: ds) := by
  intro later bid before heq htrigger
  rcases List.cons_eq_append_iff.mp heq with ⟨-, hbefore⟩ | ⟨rest, -, hrest⟩
  · exact absurd (List.cons.inj hbefore).1.symm (hd bid)
  · exact h rest bid before hrest htrigger

end Deeds

namespace Loop

variable {p : Plan ω} {l l' : Loop ω} {ds deeds : Deeds}

theorem Step.retriesFailed (h : Step p l ds l') (hposture : l.Posture)
    (hdeeds : deeds.RetriesFailed) (hbackoff : l.backoff = none ∨ deeds.Failed) :
    (ds ++ deeds).RetriesFailed := by
  have hcancel (t : Tracked) : Deeds.RetriesFailed (.cancel t :: deeds) :=
    hdeeds.cons_of_ne fun _ h => by cases h
  cases h with
  | outside submissions world => exact hdeeds
  | begun hnew hbid hlaunch =>
      apply hdeeds.attempt
      rw [hbid]
      exact fun h => by cases h
  | halted hrunning => exact hcancel l.tracked
  | rotated hrunning hlaunch =>
      apply (hcancel l.tracked).attempt
      rw [hlaunch.trigger_eq]
      exact fun h => by cases h
  | retried hrunning hphase hlaunch =>
      apply hdeeds.attempt
      intro _
      have hstance := hposture.stance hrunning
      rw [hphase] at hstance
      exact hbackoff.resolve_left hstance.backoff_of_backingOff
  | confirmed hrunning hphase hout => exact hdeeds.cons_of_ne fun _ h => by cases h
  | refused hrunning hphase hout hrefusal =>
      exact hdeeds.cons_of_ne fun _ h => by cases h

theorem launch_fields (w : World ω) (trigger : Trigger) (l : Loop ω) :
    let a := Attempt.make w l.slots.active l.slots l.submissions l.world
    (l.launch w trigger).slots = a.slots ∧ (l.launch w trigger).submissions = a.submissions ∧
      (l.launch w trigger).world = a.world := by
  unfold launch
  dsimp only
  split <;> exact ⟨rfl, rfl, rfl⟩

theorem Launch.metrics_eq {w : World ω} {trigger : Trigger} {bid : Bid}
    (h : Launch w trigger l bid l') : l'.metrics = l.metrics.attempt trigger.label := by
  cases h <;> rfl

theorem Launch.awaits {w : World ω} {trigger : Trigger} {bid : Bid} (h : Launch w trigger l bid l')
    {t : Tracked} (ht : bid.operation = some t) :
    l'.phase = .awaiting ∧ l'.ending = l.ending ∧ l'.tracked = t ∧ l'.slots.pending = bid.key? := by
  cases h with
  | undrawn hdraw => cases ht
  | failed hdraw => exact ⟨rfl, rfl, Option.some.inj ht, rfl⟩
  | crashed hdraw hpublish => cases ht
  | accepted hdraw hpublish => exact ⟨rfl, rfl, Option.some.inj ht, rfl⟩

/-- The attempt that a loop makes with a tick: whatever it awaited is cancelled by then. -/
def succeeding (p : Plan ω) (l : Loop ω) : Attempt ω :=
  Attempt.make p.world l.slots.active l.slots (l.tracked.amend Submission.cancel l.submissions)
    l.world

theorem next?_of_tick {s : Signals} (hstop : s.stop = false) (htick : s.tick = true)
    (hticker : l.ticker.isSome = true) (hending : l.ending = none) : l.next? s = some .tick := by
  simp [next?, hasEnded, hending, hstop, htick, hticker]

end Loop

/-- What a tick comes to: whatever is awaited is cancelled, and one attempt is made instead, vouched
for by the key in use. Nothing else changes that was there before. -/
structure Supersedes (p : Plan ω) (c d : Chronicle ω) (bid : Bid) : Prop where
  deeds : d.deeds = .attempt bid :: .cancel c.loop.tracked :: c.deeds
  trigger : bid.trigger = .scheduled
  signer : bid.signer = c.loop.slots.active
  draw : bid.draw = (p.world.draw c.loop.world).1
  attempt : bid.operation = (c.loop.succeeding p).result.toOption ∧
    d.loop.slots = (c.loop.succeeding p).slots ∧
    d.loop.submissions = (c.loop.succeeding p).submissions ∧
    d.loop.world = (c.loop.succeeding p).world
  counted : d.loop.metrics = (if c.loop.phase = .awaiting then c.loop.metrics.cancel "superseded"
    else c.loop.metrics).attempt "scheduled"
  disarmed : d.loop.backoff = none
  active : d.loop.slots.active = c.loop.slots.active
  completed : d.loop.completed = c.loop.completed
  failures : d.loop.failures = c.loop.failures
  delay : d.loop.delay = c.loop.delay
  escalated : d.loop.escalated = c.loop.escalated
  awaits : ∀ t, bid.operation = some t → d.loop.phase = .awaiting ∧ d.loop.ending = none ∧
    d.loop.tracked = t ∧ d.loop.slots.pending = bid.key?
  crashed : bid.operation = none → ∃ text, d.loop.ending = some (.crashed text)

namespace Chronicle

variable {p : Plan ω} {c : Chronicle ω} {s : Signals}

theorem serve_of_tick (now : Instant) (hrunning : c.loop.Running)
    (hticker : c.loop.ticker.isSome = true) (htick : s.tick = true) (hstop : s.stop = false) :
    c.serve p s now = ⟨c.loop.rotate p now, c.loop.deeds p .tick ++ c.deeds⟩ := by
  simp only [serve, hrunning.1, if_true, Loop.next?_of_tick hstop htick hticker hrunning.2,
    Loop.react]

theorem supersedes_of_tick (now : Instant) (hrunning : c.loop.Running)
    (hticker : c.loop.ticker.isSome = true) (htick : s.tick = true) (hstop : s.stop = false) :
    Supersedes p c (c.turn p (.serve s now))
      ((c.loop.cancel "superseded").bid p.world .scheduled) := by
  have hlaunch := Loop.rotate_spec p now c.loop
  obtain ⟨hslots, hsubmissions, hworld⟩ :=
    Loop.launch_fields p.world .scheduled (c.loop.superseding now)
  rw [← Loop.rotate_eq] at hslots hsubmissions hworld
  obtain ⟨hactive, hcompleted, hfailures, hescalated⟩ := hlaunch.keeps
  obtain ⟨hbackoff, hdelay⟩ := hlaunch.backoff_eq
  have hbid : (c.loop.cancel "superseded").bid p.world .scheduled =
      (c.loop.superseding now).bid p.world .scheduled := by
    simp only [Loop.cancel_eq, Loop.bid, Loop.superseding]
  rw [turn, serve_of_tick now hrunning hticker htick hstop]
  refine ⟨rfl, rfl, ?_, ?_, ⟨?_, hslots, hsubmissions, hworld⟩, hlaunch.metrics_eq, hbackoff,
    hactive, hcompleted, hfailures, hdelay, hescalated, ?_, ?_⟩
  · rw [hbid]
    rfl
  · rw [hbid]
    rfl
  · rw [hbid]
    rfl
  · intro t ht
    obtain ⟨hphase, hending, htracked, hpending⟩ := hlaunch.awaits ht
    exact ⟨hphase, hending.trans hrunning.2, htracked, hpending⟩
  · intro hnone
    rcases hlaunch.operation with ⟨-, hcrashed⟩ | ⟨hsome, -⟩
    · exact hcrashed
    · cases hnone.symm.trans hsome

/-- As long as a loop that waits for no retry observes no failure, it makes no retry. -/
theorem retriesFailed_extend (hc : c.Sound) (hfresh : c.Fresh) (hbackoff : c.loop.backoff = none)
    (more : List (Loop.Turn ω)) :
    ∃ ds, (c.extend p more).deeds = ds ++ c.deeds ∧ ds.RetriesFailed := by
  suffices h : (c.extend p more).Sound ∧ (c.extend p more).Fresh ∧ ∃ ds,
      (c.extend p more).deeds = ds ++ c.deeds ∧ ds.RetriesFailed ∧
        ((c.extend p more).loop.backoff = none ∨ ds.Failed) by
    obtain ⟨-, -, ds, hds, hretries, -⟩ := h
    exact ⟨ds, hds, hretries⟩
  apply extend_induction (P := fun d => d.Sound ∧ d.Fresh ∧ ∃ ds,
    d.deeds = ds ++ c.deeds ∧ ds.RetriesFailed ∧ (d.loop.backoff = none ∨ ds.Failed))
  · rintro d t ⟨hd, hdfresh, ds, hds, hretries, harmed⟩
    obtain ⟨later, hstep, hlater⟩ := step_turn p t hd hdfresh
    refine ⟨sound_turn p t hd, fresh_turn p t hdfresh, later ++ ds, ?_,
      hstep.retriesFailed hd.posture hretries harmed, ?_⟩
    · rw [hlater, hds, List.append_assoc]
    · rcases hstep.backoff_cases with hsame | ⟨hnone, -⟩ | ⟨tracked, e, rfl⟩
      · rw [hsame]
        exact harmed.imp_right fun ⟨tracked, e, h⟩ => ⟨tracked, e, List.mem_append_right _ h⟩
      · exact Or.inl hnone
      · exact Or.inr ⟨tracked, e, List.mem_cons_self⟩
  · exact ⟨hc, hfresh, [], rfl, Deeds.retriesFailed_nil, Or.inl hbackoff⟩

/-- A loop that waits for no retry makes no attempt when it is served, unless there is a tick. -/
theorem bids_of_unticked (now : Instant) (hstarted : c.loop.started = true)
    (hbackoff : c.loop.backoff = none) (htick : s.tick = false) :
    (c.turn p (.serve s now)).deeds.bids = c.deeds.bids := by
  simp only [turn]
  rcases serve_cases p s now c with ⟨hnot, -⟩ | ⟨-, heq | ⟨o, hnext, heq⟩⟩
  · cases hstarted.symm.trans hnot
  · rw [heq]
  · rw [heq]
    obtain ⟨-, hcause⟩ := Loop.next?_cases hnext
    cases o with
    | stop => rfl
    | tick => cases htick.symm.trans hcause.2
    | retry =>
        rw [hbackoff] at hcause
        cases hcause.1
    | outcome o => rfl

/-- Whatever else is ready, a loop that is served with a tick, and not to be stopped, cancels what
it awaits and makes one attempt instead. A backoff that comes to its end at the same moment brings
no other attempt, then or later: there is no retry before another failure. And the outcome of what
was cancelled, delivered or not, is never observed. -/
theorem tick_supersedes (p : Plan ω) (world : ω) (turns : List (Loop.Turn ω)) :
    let c := run p world turns
    ∀ s now, c.loop.Running → c.loop.ticker.isSome = true → s.tick = true → s.stop = false →
      let d := c.turn p (.serve s now)
      (∃ bid, Supersedes p c d bid) ∧
      (∀ s' now', s'.tick = false →
        (d.turn p (.serve s' now')).deeds.bids = d.deeds.bids) ∧
      ∀ more, let e := d.extend p more
        (∃ ds, e.deeds = ds ++ d.deeds ∧ ds.RetriesFailed) ∧
        ∀ n, c.loop.tracked = .submitted n →
          (∃ r, e.loop.submissions[n]? = some r ∧ r.cancelled = true) ∧
          ∀ o, .observe (.submitted n) o ∉ e.deeds := by
  intro c s now hrunning hticker htick hstop d
  have hc : c.Sound := sound_run p world turns
  have hd : d.Sound := sound_turn p _ hc
  have hfresh : d.Fresh := fresh_turn p _ (fresh_run p world turns)
  have hsupersedes : Supersedes p c d _ := supersedes_of_tick now hrunning hticker htick hstop
  have hstarted : d.loop.started = true := by
    obtain ⟨ds, hstep, -⟩ := step_turn_run p world turns (.serve s now)
    exact hstep.started hrunning.1
  refine ⟨⟨_, hsupersedes⟩, ?_, ?_⟩
  · intro s' now' htick'
    exact bids_of_unticked now' hstarted hsupersedes.disarmed htick'
  · intro more e
    have he : e.Sound := sound_extend p hd more
    refine ⟨retriesFailed_extend hd hfresh hsupersedes.disarmed more, ?_⟩
    intro n hn
    have hcancel : .cancel (.submitted n) ∈ e.deeds := by
      apply (deeds_suffix_extend p d more).subset
      rw [hsupersedes.deeds, hn]
      exact List.mem_cons_of_mem _ List.mem_cons_self
    exact ⟨he.accounted.exists_cancelled hcancel, he.accounted.not_observed_of_cancelled hcancel⟩

end Chronicle

end

namespace Chronicle

/-- The first publication has succeeded, but a tick comes before that is observed. -/
theorem tick_supersedes_succeeded :
    letI : Scheme := .plain
    let c := run eager () [.serve ⟨false, false, false⟩ 0]
    let d := c.turn eager (.serve ⟨false, true, true⟩ 0)
    c.loop.outcome? = some (.ok ()) ∧ d.loop.slots.active = none ∧ d.loop.completed = 0 ∧
      d.loop.backoff = none ∧ d.loop.metrics.cancelled.count "superseded" = 1 ∧
      ∀ more o, .observe (.submitted 0) o ∉ (d.extend eager more).deeds := by
  let _ : Scheme := .plain
  obtain ⟨⟨bid, hsupersedes⟩, -, hlater⟩ :=
    tick_supersedes eager () [.serve ⟨false, false, false⟩ 0] ⟨false, true, true⟩ 0 ⟨rfl, rfl⟩ rfl
      rfl rfl
  refine ⟨rfl, hsupersedes.active, hsupersedes.completed, hsupersedes.disarmed, ?_, ?_⟩
  · rw [hsupersedes.counted]
    rfl
  · intro more
    exact ((hlater more).2 0 rfl).2

end Chronicle

end Keyring
