import Keyring.Proofs.Attempt
import Keyring.Proofs.Rotation.Crash

namespace Keyring

open Rotation

variable [Scheme] {ω : Type}

/-- What others see of a loop at a moment. The keys and the statuses are kept apart, so between two
moments one of them changes and not the other. -/
structure Outlook where
  active : Option SigningKey
  statuses : List Status
  ended : Bool

namespace Outlook

def status (o : Outlook) : Status := o.statuses.headD .initial

def activeKey (o : Outlook) : Except KeyError SigningKey :=
  match o.active with
  | some k => .ok k
  | none => .error .noActiveKey

/-- What is seen next: a key that has come into use, a status that is told with the key in use, or
the end, before which the key in use was told. -/
inductive Next : Outlook → Outlook → Prop
  | same (o : Outlook) : Next o o
  | stored {o : Outlook} (hended : o.ended = false) (k : SigningKey) :
      Next o { o with active := some k }
  | told {o : Outlook} {status : Status} (hended : o.ended = false)
      (hactive : status.active = o.active.map (·.id)) :
      Next o { o with statuses := status :: o.statuses }
  | ended {o : Outlook} (hactive : o.status.active = o.active.map (·.id)) :
      Next o { o with ended := true }

/-- One moment and, after so many others, another one. -/
inductive Path : Outlook → List Outlook → Outlook → Prop
  | nil (o : Outlook) : Path o [] o
  | cons {o next last : Outlook} {later : List Outlook} (h : Next o next)
      (hlater : Path next later last) : Path o (next :: later) last

def Later (o later : Outlook) : Prop := Relation.ReflTransGen Next o later

theorem Path.append {first second third : Outlook} {os os' : List Outlook}
    (h : Path first os second) (h' : Path second os' third) : Path first (os ++ os') third := by
  induction h with
  | nil o => exact h'
  | cons hnext hlater ih => exact .cons hnext (ih h')

theorem Path.toLater {first last : Outlook} {os : List Outlook} (h : Path first os last) :
    Later first last := by
  induction h with
  | nil o => exact .refl
  | cons hnext hlater ih => exact .head hnext ih

theorem Path.later_of_le {first last o o' : Outlook} {os : List Outlook} (h : Path first os last)
    {i j : Nat} (hle : i ≤ j) (hi : (first :: os)[i]? = some o)
    (hj : (first :: os)[j]? = some o') : Later o o' ∧ Later o' last := by
  induction h generalizing i j o with
  | nil first =>
      rcases i with _ | i
      · rcases j with _ | j
        · obtain rfl := Option.some.inj hi
          obtain rfl := Option.some.inj hj
          exact ⟨.refl, .refl⟩
        · cases hj
      · cases hi
  | cons hnext hlater ih =>
      rcases j with _ | j
      · obtain rfl := Nat.le_zero.mp hle
        obtain rfl := Option.some.inj hi
        obtain rfl := Option.some.inj hj
        exact ⟨.refl, .head hnext hlater.toLater⟩
      · rcases i with _ | i
        · obtain rfl := Option.some.inj hi
          obtain ⟨hfirst, hlast⟩ := ih (Nat.zero_le j) rfl hj
          exact ⟨.head hnext hfirst, hlast⟩
        · exact ih (Nat.le_of_succ_le_succ hle) hi hj

theorem Path.getElem?_length {first last : Outlook} {os : List Outlook} (h : Path first os last) :
    (first :: os)[os.length]? = some last := by
  induction h with
  | nil o => rfl
  | cons hnext hlater ih => exact ih

/-- The statuses never name a key that is not there. No status names a key if the latest does not,
and at the end the latest does if there is one. -/
structure Fair (o : Outlook) : Prop where
  backed : ∀ status ∈ o.statuses, status.active ≠ none → o.active ≠ none
  latest : o.status.active = none → ∀ status ∈ o.statuses, status.active = none
  final : o.ended = true → o.status.active = none → o.active = none

theorem Fair.next {o o' : Outlook} (h : o.Fair) (hnext : Next o o') : o'.Fair := by
  cases hnext with
  | same => exact h
  | stored hended k =>
      refine ⟨fun _ _ _ => Option.some_ne_none k, h.latest, ?_⟩
      intro hend
      exact absurd (hended.symm.trans hend) Bool.false_ne_true
  | told hended hactive =>
      refine ⟨?_, ?_, ?_⟩
      · intro status hstatus hne
        rcases List.mem_cons.mp hstatus with rfl | hmem
        · intro hnone
          exact hne (hactive.trans (by rw [hnone]; rfl))
        · exact h.backed status hmem hne
      · intro hlatest status hstatus
        rcases List.mem_cons.mp hstatus with rfl | hmem
        · exact hlatest
        · have hnone : o.active = none := Option.map_eq_none_iff.mp (hactive.symm.trans hlatest)
          by_contra hne
          exact h.backed status hmem hne hnone
      · intro hend
        exact absurd (hended.symm.trans hend) Bool.false_ne_true
  | ended hactive =>
      refine ⟨h.backed, h.latest, fun _ hnone => ?_⟩
      exact Option.map_eq_none_iff.mp (hactive.symm.trans hnone)

theorem Fair.later {o o' : Outlook} (h : o.Fair) (hlater : Later o o') : o'.Fair := by
  induction hlater with
  | refl => exact h
  | tail _ hnext ih => exact ih.next hnext

theorem Later.statuses_suffix {o o' : Outlook} (h : Later o o') : o.statuses <:+ o'.statuses := by
  induction h with
  | refl => exact List.suffix_rfl
  | tail _ hnext ih =>
      cases hnext with
      | told hended hactive => exact ih.trans (List.suffix_cons _ _)
      | _ => exact ih

/-- Nothing is seen any more once a loop has ended. -/
theorem Later.eq_of_ended {o o' : Outlook} (h : Later o o') (hended : o.ended = true) : o' = o := by
  induction h with
  | refl => rfl
  | tail _ hnext ih =>
      subst ih
      cases hnext with
      | same => rfl
      | stored hfalse k => exact absurd (hfalse.symm.trans hended) Bool.false_ne_true
      | told hfalse hactive => exact absurd (hfalse.symm.trans hended) Bool.false_ne_true
      | ended hactive => rw [← hended]

theorem Later.active_ne_none {o o' : Outlook} (h : Later o o') (hactive : o.active ≠ none) :
    o'.active ≠ none := by
  induction h with
  | refl => exact hactive
  | tail _ hnext ih =>
      cases hnext with
      | stored hended k => exact Option.some_ne_none k
      | _ => exact ih

end Outlook

namespace Loop

open Outlook (Next Path)

def outlook (l : Loop ω) : Outlook := ⟨l.slots.active, l.statuses, l.hasEnded⟩

/-- A loop that has made an attempt and has told nothing of it. -/
def attempted (w : World ω) (trigger : Trigger) (l : Loop ω) : Loop ω :=
  let a := Attempt.make w l.slots.active l.slots l.submissions l.world
  { l.meter (·.attempt trigger.label) with
    slots := a.slots, submissions := a.submissions, world := a.world, log := a.events ++ l.log }

theorem launch_eq_attempted (w : World ω) (trigger : Trigger) (l : Loop ω) :
    l.launch w trigger =
      match (Attempt.make w l.slots.active l.slots l.submissions l.world).result with
      | .ok tracked => { l.attempted w trigger with tracked }.report .awaiting
      | .error text => { l.attempted w trigger with
          poisoned := true, ending := some (.crashed text) } := rfl

/-- A loop that has brought the waiting key into use and has told nothing of it. -/
def confirming (p : Plan ω) (now : Instant) (l : Loop ω) : Loop ω :=
  let seconds := p.startedAt + (Duration.wholeSecs ⟨now⟩ : Nat)
  { l with
    slots := l.slots.promote
    completed := l.completed + 1
    failures := 0
    delay := .first }.meter fun m => (m.result "success").succeedAt seconds

theorem confirm_eq_confirming (p : Plan ω) (now : Instant) (l : Loop ω) :
    l.confirm p now = ((l.confirming p now).note
      (Notice.published l.slots.promote.activeId l.slots.promote.pendingId)).report .idle := rfl

/-- The loop with the keys that a reaction leaves, before it tells its status. -/
def stored (p : Plan ω) (now : Instant) (l : Loop ω) : Occurrence → List (Loop ω)
  | .tick => [(l.superseding now).attempted p.world .scheduled]
  | .retry => [l.retrying.attempted p.world .retry]
  | .outcome (.ok ()) => [l.settle.confirming p now]
  | _ => []

/-- What becomes of a loop in the course of a reaction. It stores its keys first, then it tells its
status, and it ends last. -/
def stages (p : Plan ω) (now : Instant) (o : Occurrence) (l : Loop ω) : List (Loop ω) :=
  l.stored p now o ++ [{ l.react p now o with ending := none }, l.react p now o]

/-- A loop that starts tells its status before it has made an attempt, and again after that. -/
def startStages (p : Plan ω) (now : Instant) (l : Loop ω) : List (Loop ω) :=
  [l.starting p, (l.starting p).attempted p.world .bootstrap,
    { l.start p now with ending := none }, l.start p now]

variable {p : Plan ω} {l l' : Loop ω}

theorem outlook_attempted (w : World ω) (trigger : Trigger) (l : Loop ω) :
    (l.attempted w trigger).outlook = l.outlook := by
  have hactive := Attempt.active_make w l.slots.active l.slots l.submissions l.world
  simp only [outlook, attempted, hactive]
  rfl

/-- The end comes after the key in use was told. -/
theorem next_ended (h : l.Candid) : Next { l with ending := none }.outlook l.outlook := by
  cases hending : l.ending with
  | none =>
      have heq : { l with ending := none }.outlook = l.outlook := by
        simp only [outlook, hasEnded, hending]
      rw [heq]
      exact .same _
  | some ending =>
      have heq : l.outlook = { { l with ending := none }.outlook with ended := true } := by
        simp only [outlook, hasEnded, hending, Option.isSome_some]
      rw [heq]
      exact .ended h

theorem next_told (hactive : l'.slots.active = l.slots.active) (hending : l.ending = none)
    (htold : l'.statuses = l.statuses ∨ l'.statuses = l'.snapshot :: l.statuses) :
    Next l.outlook { l' with ending := none }.outlook := by
  simp only [outlook, hasEnded, hactive, hending]
  rcases htold with hsame | htold
  · rw [hsame]
    exact .same _
  · rw [htold]
    refine .told rfl ?_
    show l'.slots.active.map (·.id) = _
    rw [hactive]

theorem Launch.told_or_same {w : World ω} {trigger : Trigger} {bid : Bid}
    (h : Launch w trigger l bid l') :
    l'.statuses = l.statuses ∨ l'.statuses = l'.snapshot :: l.statuses := by
  rcases h.told with ⟨-, hsame⟩ | ⟨-, -, htold⟩
  · exact Or.inl hsame
  · exact Or.inr htold

/-- An attempt does not touch the key in use, so nothing is seen of it until it is told. -/
theorem path_launch {w : World ω} {trigger : Trigger} {bid : Bid} (h : Launch w trigger l bid l')
    (hending : l.ending = none) (hcandid : l'.Candid) :
    Path l.outlook [(l.attempted w trigger).outlook, { l' with ending := none }.outlook,
      l'.outlook] l'.outlook := by
  have htold := next_told h.keeps.1 hending h.told_or_same
  rw [outlook_attempted]
  exact .cons (.same _) (.cons htold (.cons (next_ended hcandid) (.nil _)))

theorem path_told (hactive : l'.slots.active = l.slots.active) (hending : l.ending = none)
    (htold : l'.statuses = l.statuses ∨ l'.statuses = l'.snapshot :: l.statuses)
    (hcandid : l'.Candid) :
    Path l.outlook [{ l' with ending := none }.outlook, l'.outlook] l'.outlook :=
  .cons (next_told hactive hending htold) (.cons (next_ended hcandid) (.nil _))

theorem Refusal.told_or_same {now : Instant} {e : PublishError} (h : Refusal p now e l l') :
    l'.statuses = l.statuses ∨ l'.statuses = l'.snapshot :: l.statuses := by
  rcases h.told with ⟨-, hsame⟩ | htold
  · exact Or.inl hsame
  · exact Or.inr htold

theorem path_confirm (now : Instant) {k : SigningKey} (hpending : l.slots.pending = some k)
    (hending : l.ending = none) :
    Path l.outlook ([l.confirming p now, { l.confirm p now with ending := none },
      l.confirm p now].map outlook) (l.confirm p now).outlook := by
  have hstored : (l.confirming p now).outlook = { l.outlook with active := some k } := by
    show (⟨l.slots.promote.active, l.statuses, l.hasEnded⟩ : Outlook) = _
    rw [Slots.promote, hpending]
    rfl
  have hnext : Next l.outlook (l.confirming p now).outlook := by
    rw [hstored]
    exact .stored (congrArg Option.isSome hending) k
  have htold := statuses_report .idle ((l.confirming p now).note
    (Notice.published l.slots.promote.activeId l.slots.promote.pendingId))
  exact .cons hnext
    (path_told (l := l.confirming p now) rfl hending (Or.inr htold) (candid_of_told htold))

theorem path_start (now : Instant) (hnew : l = new l.world) :
    Path l.outlook ((l.startStages p now).map outlook) (l.start p now).outlook := by
  have hbegun : Next l.outlook (l.starting p).outlook := by
    rw [hnew]
    exact .told rfl rfl
  have hcandid : (l.start p now).Candid :=
    (step_start p now hnew).candid (by rw [hnew]; rfl)
  obtain ⟨launched, ticker, log, hlaunch, heq⟩ := start_spec p now l
  have hending : (l.starting p).ending = none := by rw [hnew]; rfl
  rw [heq] at hcandid
  have hlaunched := path_launch hlaunch hending hcandid
  simp only [startStages, heq]
  exact .cons hbegun hlaunched

end Loop

namespace Chronicle

open Outlook (Path)

theorem path_react (p : Plan ω) (s : Signals) (now : Instant) {c : Chronicle ω} {o : Occurrence}
    (hc : c.Sound) (hcandid : c.loop.Candid) (hstarted : c.loop.started = true)
    (hnext : c.loop.next? s = some o) :
    Path c.loop.outlook ((c.loop.stages p now o).map Loop.outlook)
      (c.loop.react p now o).outlook := by
  obtain ⟨hending, hcause⟩ := Loop.next?_cases hnext
  have hcandid' : (c.loop.react p now o).Candid :=
    (Loop.step_react p s now hc.posture hstarted hnext).candid hcandid
  cases o with
  | stop =>
      simp only [Loop.stages, Loop.react, Loop.halt_eq] at hcandid' ⊢
      exact Loop.path_told (l := c.loop) rfl hending (Or.inr (Loop.statuses_finish _ _)) hcandid'
  | tick => exact Loop.path_launch (Loop.rotate_spec p now c.loop) hending hcandid'
  | retry =>
      exact Loop.path_launch (l := c.loop.retrying) (Loop.retry_spec p c.loop) hending hcandid'
  | outcome o =>
      have hsettled : c.loop.settle.outlook = c.loop.outlook := by
        rw [Loop.settle_eq]
        rfl
      cases o with
      | ok _ =>
          obtain ⟨k, hpending⟩ : ∃ k, c.loop.settle.slots.pending = some k := by
            rw [Loop.settle_eq]
            rcases Loop.outcome?_cases hcause with ⟨e, -, he⟩ | ⟨n, s, htracked, -⟩
            · cases he
            · obtain ⟨-, -, k, hk, -⟩ := hc.accounted.latest n htracked
              exact ⟨k, hk⟩
          rw [← hsettled]
          exact Loop.path_confirm now hpending (by rw [Loop.settle_eq]; exact hending)
      | error e =>
          have hrefusal := Loop.refuse_spec p now e c.loop.settle
          rw [← hsettled]
          exact Loop.path_told (congrArg Slots.active hrefusal.keeps.1)
            (by rw [Loop.settle_eq]; exact hending) hrefusal.told_or_same hcandid'

/-- What becomes of the loop in the course of a turn. -/
def stages (p : Plan ω) (c : Chronicle ω) : Loop.Turn ω → List (Loop ω)
  | .serve s now =>
      if c.loop.started then
        match c.loop.next? s with
        | some o => c.loop.stages p now o
        | none => []
      else c.loop.startStages p now
  | _ => []

theorem path_turn (p : Plan ω) (t : Loop.Turn ω) {c : Chronicle ω} (hc : c.Sound)
    (hfresh : c.Fresh) (hcandid : c.loop.Candid) :
    Path c.loop.outlook ((c.stages p t).map Loop.outlook) (c.turn p t).loop.outlook := by
  cases t with
  | serve s now =>
      simp only [turn, serve, stages]
      cases hstarted : c.loop.started with
      | false =>
          obtain ⟨world, rfl⟩ := hfresh hstarted
          exact Loop.path_start now rfl
      | true =>
          cases hnext : c.loop.next? s with
          | none => exact .nil _
          | some o => exact path_react p s now hc hcandid hstarted hnext
  | report i outcome => exact .nil _
  | abandon i => exact .nil _
  | elapse world => exact .nil _

def momentsAfter (p : Plan ω) (c : Chronicle ω) : List (Loop.Turn ω) → List Outlook
  | [] => []
  | t :: turns => (c.stages p t).map Loop.outlook ++ (c.turn p t).momentsAfter p turns

/-- All that others may see while the turns are made, from now on. -/
def moments (p : Plan ω) (c : Chronicle ω) (turns : List (Loop.Turn ω)) : List Outlook :=
  c.loop.outlook :: c.momentsAfter p turns

theorem path_momentsAfter (p : Plan ω) (turns : List (Loop.Turn ω)) {c : Chronicle ω}
    (hc : c.Sound) (hfresh : c.Fresh) (hcandid : c.loop.Candid) :
    Path c.loop.outlook (c.momentsAfter p turns) (c.extend p turns).loop.outlook := by
  induction turns generalizing c with
  | nil => exact .nil _
  | cons t turns ih =>
      obtain ⟨ds, hstep, -⟩ := step_turn p t hc hfresh
      exact (path_turn p t hc hfresh hcandid).append
        (ih (sound_turn p t hc) (fresh_turn p t hfresh) (hstep.candid hcandid))

theorem path_run (p : Plan ω) (world : ω) (turns : List (Loop.Turn ω)) :
    Path (Loop.new world).outlook ((new world).momentsAfter p turns)
      (run p world turns).loop.outlook :=
  path_momentsAfter p turns (sound_new world) (fun _ => ⟨world, rfl⟩) rfl

end Chronicle

end Keyring
