import Keyring.Proofs.Rotation.ActiveKey
import Keyring.Proofs.Rotation.Step
import Keyring.Proofs.SigningKey

namespace Keyring

open Rotation

section

variable [Scheme] {ω : Type}

namespace Deeds

def bids (ds : Deeds) : List Bid :=
  ds.filterMap fun
    | .attempt bid => some bid
    | _ => none

theorem mem_bids {bid : Bid} {ds : Deeds} : bid ∈ ds.bids ↔ .attempt bid ∈ ds := by
  simp only [bids, List.mem_filterMap]
  constructor
  · rintro ⟨d, hd, hbid⟩
    cases d with
    | attempt other =>
        cases hbid
        exact hd
    | cancel t => cases hbid
    | observe t o => cases hbid
  · intro h
    exact ⟨_, h, rfl⟩

end Deeds

namespace Accounted

variable {ds : Deeds} {slots : Slots} {tracked : Tracked} {submissions : Submissions}

theorem exists_cancelled (h : Accounted ds slots tracked submissions) {n : Nat}
    (hcancel : .cancel (.submitted n) ∈ ds) :
    ∃ s, submissions[n]? = some s ∧ s.cancelled = true := by
  obtain ⟨s, hs, hmem, hstory⟩ := h.story_of_mem hcancel rfl
  exact ⟨s, hs, hstory.cancelled_of_cancel hmem⟩

/-- Once nothing is awaited, no report reaches anyone. -/
theorem complete_eq_false (h : Accounted ds slots .inert submissions) {n : Nat} {s : Submission}
    (hs : submissions[n]? = some s) (outcome : Outcome) : (s.complete outcome).1 = false := by
  have haccepts : s.accepts = false := by
    cases hcancelled : s.cancelled with
    | true => simp [Submission.accepts, hcancelled]
    | false =>
        cases hheld : s.held with
        | true => cases h.live n s hs hcancelled hheld
        | false => simp [Submission.accepts, hheld]
  simp [Submission.complete, haccepts]

end Accounted

namespace Loop

/-- The stop signal is on when the loop is served. -/
def Turn.Signalled : Turn ω → Prop
  | .serve s _ => s.stop = true
  | _ => True

def Turn.serves : Turn ω → Bool
  | .serve _ _ => true
  | _ => false

theorem next?_of_stop {s : Signals} {l : Loop ω} (hstop : s.stop = true)
    (hending : l.ending = none) : l.next? s = some .stop := by
  simp [next?, hasEnded, hending, hstop]

theorem Launch.operation {w : World ω} {trigger : Trigger} {l l' : Loop ω} {bid : Bid}
    (h : Launch w trigger l bid l') :
    bid.operation = none ∧ (∃ text, l'.ending = some (.crashed text)) ∨
      bid.operation = some l'.tracked ∧ l'.ending = l.ending := by
  cases h with
  | undrawn hdraw => exact Or.inl ⟨rfl, _, rfl⟩
  | failed hdraw => exact Or.inr ⟨rfl, rfl⟩
  | crashed hdraw hpublish => exact Or.inl ⟨rfl, _, rfl⟩
  | accepted hdraw hpublish => exact Or.inr ⟨rfl, rfl⟩

end Loop

namespace Chronicle

theorem serve_of_stop (p : Plan ω) {s : Signals} (now : Instant) {c : Chronicle ω}
    (hstop : s.stop = true) (hrunning : c.loop.Running) :
    c.serve p s now =
      ⟨c.loop.stopping.finish .stopped, .cancel c.loop.tracked :: c.deeds⟩ := by
  simp only [serve, hrunning.1, if_true, Loop.next?_of_stop hstop hrunning.2, Loop.react,
    Loop.halt_eq]
  rfl

theorem extend_stopped (p : Plan ω) (c : Chronicle ω) (more : List (Loop.Turn ω)) :
    ∃ submissions world,
      extend p ⟨c.loop.stopping.finish .stopped, .cancel c.loop.tracked :: c.deeds⟩ more =
        ⟨{ c.loop.stopping.finish .stopped with submissions, world },
          .cancel c.loop.tracked :: c.deeds⟩ :=
  extend_of_ended p rfl (Option.some_ne_none _) more

/-- With the stop signal on, a running loop goes on as it is until it is served, and stops then. -/
theorem extend_of_signalled (p : Plan ω) {c : Chronicle ω} (hrunning : c.loop.Running)
    {more : List (Loop.Turn ω)} (hmore : ∀ t ∈ more, t.Signalled) :
    ∃ submissions world, c.extend p more =
      if 0 < more.countP Loop.Turn.serves then
        ⟨{ c.loop.stopping.finish .stopped with submissions, world },
          .cancel c.loop.tracked :: c.deeds⟩
      else ⟨{ c.loop with submissions, world }, c.deeds⟩ := by
  induction more generalizing c with
  | nil => exact ⟨_, _, rfl⟩
  | cons t more ih =>
      have hrest := fun t h => hmore t (List.mem_cons_of_mem _ h)
      cases t with
      | serve s now =>
          have hstop : s.stop = true := hmore _ List.mem_cons_self
          obtain ⟨submissions, world, heq⟩ := extend_stopped p c more
          refine ⟨submissions, world, ?_⟩
          rw [if_pos (by simp [Loop.Turn.serves]), ← heq, ← serve_of_stop p now hstop hrunning]
          rfl
      | report i outcome =>
          obtain ⟨submissions, world, heq⟩ :=
            ih (c := c.turn p (.report i outcome)) hrunning hrest
          exact ⟨submissions, world, heq⟩
      | abandon i =>
          obtain ⟨submissions, world, heq⟩ := ih (c := c.turn p (.abandon i)) hrunning hrest
          exact ⟨submissions, world, heq⟩
      | elapse world =>
          obtain ⟨submissions, world, heq⟩ := ih (c := c.turn p (.elapse world)) hrunning hrest
          exact ⟨submissions, world, heq⟩

theorem turn_new (p : Plan ω) (s : Signals) (now : Instant) (world : ω) :
    let c := (new world).turn p (.serve s now)
    c.loop.started = true ∧ c.loop.slots.active = none ∧ c.loop.escalated = [] ∧
      ∃ bid, bid.trigger = .bootstrap ∧ c.deeds = [.attempt bid] ∧
        (bid.operation = none ∧ (∃ text, c.loop.ending = some (.crashed text)) ∨
          bid.operation = some c.loop.tracked ∧ c.loop.ending = none) := by
  obtain ⟨launched, ticker, log, hlaunch, heq⟩ := Loop.start_spec p now (Loop.new world)
  have hturn : (new world).turn p (.serve s now) = ⟨{ launched with ticker, log },
      [.attempt ((Loop.new world).bid p.world .bootstrap)]⟩ := by
    rw [← heq]
    rfl
  have hstarted := Loop.started_start p now (Loop.new world)
  obtain ⟨hactive, -, -, hescalated⟩ := hlaunch.keeps
  rw [heq] at hstarted
  rw [hturn]
  exact ⟨hstarted, hactive, hescalated, _, hlaunch.trigger_eq, rfl, hlaunch.operation⟩

/-- With the stop signal on from the beginning, a loop makes one attempt when it is served first,
and cancels it when it is served again. -/
theorem extend_new_of_signalled (p : Plan ω) (world : ω) {more : List (Loop.Turn ω)}
    (hmore : ∀ t ∈ more, t.Signalled) :
    let d := (new world).extend p more
    more.countP Loop.Turn.serves = 0 ∧ d.deeds = [] ∨
      d.loop.slots.active = none ∧ d.loop.escalated = [] ∧ ∃ bid, bid.trigger = .bootstrap ∧
        (bid.operation = none ∧ d.deeds = [.attempt bid] ∧
            (∃ text, d.loop.ending = some (.crashed text)) ∨
          ∃ t, bid.operation = some t ∧
            if 2 ≤ more.countP Loop.Turn.serves then
              d.deeds = [.cancel t, .attempt bid] ∧ d.loop.phase = .stopped ∧
                d.loop.ending = some .finished
            else d.deeds = [.attempt bid]) := by
  induction more generalizing world with
  | nil => exact Or.inl ⟨rfl, rfl⟩
  | cons t more ih =>
      have hrest := fun t h => hmore t (List.mem_cons_of_mem _ h)
      cases t with
      | serve s now =>
          intro d
          obtain ⟨hstarted, hactive, hescalated, bid, htrigger, hdeeds, hoperation⟩ :=
            turn_new p s now world
          refine Or.inr ?_
          rcases hoperation with ⟨hnone, text, hcrashed⟩ | ⟨hsome, hending⟩
          · obtain ⟨submissions, world', heq⟩ := extend_of_ended p hstarted
              (hcrashed ▸ Option.some_ne_none _) more
            have hd : d = _ := heq
            rw [hd]
            exact ⟨hactive, hescalated, bid, htrigger, Or.inl ⟨hnone, hdeeds, text, hcrashed⟩⟩
          · obtain ⟨submissions, world', heq⟩ :=
              extend_of_signalled p ⟨hstarted, hending⟩ hrest
            have hd : d = _ := heq
            rw [hd, List.countP_cons_of_pos rfl]
            by_cases hserved : 0 < more.countP Loop.Turn.serves
            · rw [if_pos hserved]
              refine ⟨hactive, hescalated, bid, htrigger, Or.inr ⟨_, hsome, ?_⟩⟩
              rw [if_pos (Nat.succ_le_succ hserved)]
              exact ⟨congrArg _ hdeeds, rfl, rfl⟩
            · rw [if_neg hserved]
              refine ⟨hactive, hescalated, bid, htrigger, Or.inr ⟨_, hsome, ?_⟩⟩
              rw [if_neg fun h => hserved (Nat.le_of_succ_le_succ h)]
              exact hdeeds
      | report i outcome =>
          have hsame : (new world).turn p (.report i outcome) = new world := amend_new world i _
          have hih := ih world hrest
          rw [← hsame] at hih
          exact hih
      | abandon i =>
          have hsame : (new world).turn p (.abandon i) = new world := amend_new world i _
          have hih := ih world hrest
          rw [← hsame] at hih
          exact hih
      | elapse world => exact ih world hrest

theorem bids_of_started (p : Plan ω) {c : Chronicle ω} (hstarted : c.loop.started = true)
    {more : List (Loop.Turn ω)} (hmore : ∀ t ∈ more, t.Signalled) :
    (c.extend p more).deeds.bids = c.deeds.bids := by
  cases hending : c.loop.ending with
  | some ending =>
      obtain ⟨submissions, world', heq⟩ :=
        extend_of_ended p hstarted (hending ▸ Option.some_ne_none _) more
      rw [heq]
  | none =>
      obtain ⟨submissions, world', heq⟩ := extend_of_signalled p ⟨hstarted, hending⟩ hmore
      rw [heq]
      split
      · rfl
      · rfl

theorem bids_of_unstarted (p : Plan ω) {c : Chronicle ω} (hfresh : c.Fresh)
    (hstarted : c.loop.started = false) {more : List (Loop.Turn ω)}
    (hmore : ∀ t ∈ more, t.Signalled) :
    (c.extend p more).deeds.bids = [] ∨
      ∃ bid, bid.trigger = .bootstrap ∧ (c.extend p more).deeds.bids = [bid] := by
  obtain ⟨world, hnew⟩ := hfresh hstarted
  have hextend := extend_new_of_signalled p world hmore
  rw [← hnew] at hextend
  rcases hextend with ⟨-, hnone⟩ | ⟨-, -, bid, htrigger, ⟨-, hbid, -⟩ | ⟨t, -, hbid⟩⟩
  · exact Or.inl (congrArg Deeds.bids hnone)
  · exact Or.inr ⟨bid, htrigger, congrArg Deeds.bids hbid⟩
  · refine Or.inr ⟨bid, htrigger, ?_⟩
    split at hbid
    · exact congrArg Deeds.bids hbid.1
    · exact congrArg Deeds.bids hbid

/-- Whatever else is ready, a loop that is served with the stop signal on does nothing but cancel
what it awaits. It keeps its keys and its counts, ends as stopped and stays so, and from then on no
report reaches anyone. If the signal was on from the beginning, one attempt is made all the same; it
is cancelled, and no key comes into use. No other attempt ever follows the signal. -/
theorem stop_wins (p : Plan ω) (world : ω) (turns : List (Loop.Turn ω)) :
    let c := run p world turns
    (∀ s now, s.stop = true → c.loop.started = true → c.loop.ending = none →
      (c.turn p (.serve s now)).loop.world = c.loop.world ∧ ∀ more,
      let d := (c.turn p (.serve s now)).extend p more
      d.deeds = .cancel c.loop.tracked :: c.deeds ∧
      d.loop.phase = .stopped ∧ d.loop.ending = some .finished ∧
      d.loop.statuses = ⟨.stopped, c.loop.slots.activeId, c.loop.slots.pendingId,
        c.loop.completed, c.loop.failures⟩ :: c.loop.statuses ∧
      d.loop.slots = c.loop.slots ∧ d.loop.completed = c.loop.completed ∧
      d.loop.failures = c.loop.failures ∧ d.loop.escalated = c.loop.escalated ∧
      (∀ n, c.loop.tracked = .submitted n →
        ∃ r, d.loop.submissions[n]? = some r ∧ r.cancelled = true) ∧
      ∀ (n : Nat) (r : Submission) outcome, d.loop.submissions[n]? = some r →
        (r.complete outcome).1 = false) ∧
    (c.loop.started = false → ∀ more, (∀ t ∈ more, t.Signalled) →
      2 ≤ more.countP Loop.Turn.serves →
      let d := c.extend p more
      d.loop.activeKey = .error .noActiveKey ∧ d.loop.escalated = [] ∧
        ∃ bid, bid.trigger = .bootstrap ∧
          ((∃ t, bid.operation = some t ∧ d.deeds = [.cancel t, .attempt bid] ∧
              d.loop.phase = .stopped ∧ d.loop.ending = some .finished) ∨
            bid.operation = none ∧ d.deeds = [.attempt bid] ∧
              ∃ text, d.loop.ending = some (.crashed text))) ∧
    ∀ more, (∀ t ∈ more, t.Signalled) →
      (c.loop.started = true → (c.extend p more).deeds.bids = c.deeds.bids) ∧
      (c.loop.started = false → (c.extend p more).deeds.bids = [] ∨
        ∃ bid, bid.trigger = .bootstrap ∧ (c.extend p more).deeds.bids = [bid]) := by
  intro c
  have hc : c.Sound := sound_run p world turns
  have hfresh : c.Fresh := fresh_run p world turns
  refine ⟨?_, ?_, ?_⟩
  · intro s now hstop hstarted hending
    have hturn : c.turn p (.serve s now) =
        ⟨c.loop.stopping.finish .stopped, .cancel c.loop.tracked :: c.deeds⟩ :=
      serve_of_stop p now hstop ⟨hstarted, hending⟩
    refine ⟨by rw [hturn]; rfl, ?_⟩
    intro more d
    have hd : d.Sound := sound_extend p (sound_turn p _ hc) more
    obtain ⟨submissions, world', heq⟩ := extend_stopped p c more
    rw [← hturn] at heq
    have hdeeds : d.deeds = .cancel c.loop.tracked :: c.deeds := by rw [show d = _ from heq]
    have htracked : d.loop.tracked = .inert := by
      rw [show d = _ from heq]
      rfl
    have haccounted := hd.accounted
    rw [htracked] at haccounted
    have htold : d.loop.statuses = ⟨.stopped, c.loop.slots.activeId, c.loop.slots.pendingId,
        c.loop.completed, c.loop.failures⟩ :: c.loop.statuses := by
      rw [show d = _ from heq]
      exact Loop.statuses_finish .stopped c.loop.stopping
    refine ⟨hdeeds, ?_, ?_, htold, ?_, ?_, ?_, ?_, ?_, ?_⟩
    any_goals
      rw [show d = _ from heq]
      rfl
    · intro n hn
      apply haccounted.exists_cancelled
      rw [hdeeds, hn]
      exact List.mem_cons_self
    · intro n r outcome hr
      exact haccounted.complete_eq_false hr outcome
  · intro hstarted more hmore hserves d
    obtain ⟨world', hnew⟩ := hfresh hstarted
    have hextend := extend_new_of_signalled p world' hmore
    rw [← hnew] at hextend
    rcases hextend with ⟨hnone, -⟩ | ⟨hactive, hescalated, bid, htrigger, hbid⟩
    · omega
    · refine ⟨Loop.activeKey_eq_error_iff.mpr hactive, hescalated, bid, htrigger, ?_⟩
      rcases hbid with hcrashed | ⟨t, ht, hcancelled⟩
      · exact Or.inr hcrashed
      · rw [if_pos hserves] at hcancelled
        exact Or.inl ⟨t, ht, hcancelled⟩
  · intro more hmore
    exact ⟨fun hstarted => bids_of_started p hstarted hmore,
      fun hstarted => bids_of_unstarted p hfresh hstarted hmore⟩

end Chronicle

end

namespace Chronicle

/-- A plan whose publications succeed at once. -/
def eager [Scheme] : Plan Unit where
  settings := .new "issuer" "endpoint"
  world := {
    draw := fun _ => (.key (.numbered 1), ())
    publish := fun _ _ _ _ => (.accepted (some (.ok ())), ())
    escalate := fun _ => .returns }
  startedAt := 0

/-- The first publication has succeeded and a tick is due, but the stop comes first. -/
theorem stop_wins_succeeded :
    letI : Scheme := .plain
    let c := run eager () [.serve ⟨false, false, false⟩ 0]
    let d := c.turn eager (.serve ⟨true, true, true⟩ 0)
    c.loop.outcome? = some (.ok ()) ∧ d.loop.phase = .stopped ∧
      d.deeds = .cancel (.submitted 0) :: c.deeds ∧
      ∀ r : Submission, d.loop.submissions[0]? = some r → (r.complete (.ok ())).1 = false := by
  let _ : Scheme := .plain
  have h := ((stop_wins eager () [.serve ⟨false, false, false⟩ 0]).1 ⟨true, true, true⟩ 0 rfl rfl
    rfl).2 []
  obtain ⟨hdeeds, hphase, -, -, -, -, -, -, -, hrefused⟩ := h
  exact ⟨rfl, hphase, hdeeds, fun r => hrefused 0 r (.ok ())⟩

end Chronicle

end Keyring
