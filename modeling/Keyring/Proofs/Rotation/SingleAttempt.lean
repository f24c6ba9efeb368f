import Keyring.Proofs.Rotation.Machine
import Keyring.Proofs.Rotation.Supersession

namespace Keyring

open Rotation

section

variable [Scheme] {ω : Type}

theorem Story.cancel_of_cancelled {n : Nat} {ds : Deeds} {s : Submission} (h : Story n ds s)
    (hcancelled : s.cancelled = true) : .cancel (.submitted n) ∈ ds := by
  cases h with
  | live _ _ hfalse _ => cases hfalse.symm.trans hcancelled
  | cancelled _ _ _ => exact List.mem_cons_self
  | observed _ _ hfalse _ _ => cases hfalse.symm.trans hcancelled

namespace Accounted

/-- What was cancelled is what the loop cancelled. -/
theorem cancelled_iff {ds : Deeds} {slots : Slots} {tracked : Tracked} {submissions : Submissions}
    (h : Accounted ds slots tracked submissions) {n : Nat} {s : Submission}
    (hs : submissions[n]? = some s) :
    s.cancelled = true ↔ .cancel (.submitted n) ∈ ds := by
  have hstory := h.story n s hs
  constructor
  · exact fun hcancelled => (Deeds.mem_about.mp (hstory.cancel_of_cancelled hcancelled)).1
  · exact fun hcancel => hstory.cancelled_of_cancel (Deeds.mem_about.mpr ⟨hcancel, rfl⟩)

end Accounted

namespace Deed

/-- Nothing can follow: an error was observed, or an attempt crashed. -/
def isLast : Deed → Bool
  | .attempt bid => bid.operation.isNone
  | .cancel _ => false
  | .observe _ (.ok _) => false
  | .observe _ (.error _) => true

theorem isLast_of_crashes {d : Deed} (h : d.crashes = true) : d.isLast = true := by
  cases d with
  | attempt bid => exact h
  | cancel t => cases h
  | observe t o => cases h

end Deed

def Rotation.Plan.allowing (maxAttempts : UInt32) (p : Plan ω) : Plan ω :=
  { p with settings := { p.settings with maxAttempts } }

namespace Loop

variable {p : Plan ω} {l l' : Loop ω}

theorem Refusal.phase_ne {now : Instant} {e : PublishError} (h : Refusal p now e l l')
    (hge : ¬ countFailure l.failures < p.settings.maxAttempts) (hphase : l.phase ≠ .backingOff) :
    l'.phase ≠ .backingOff := by
  cases h with
  | backedOff hlt => exact absurd hlt hge
  | returned _ hescalate => exact nofun
  | crashed _ hescalate => exact hphase
  | exited _ hescalate => exact hphase

theorem Launch.phase_ne {w : World ω} {trigger : Trigger} {bid : Bid}
    (h : Launch w trigger l bid l') (hphase : l.phase ≠ .backingOff) : l'.phase ≠ .backingOff := by
  cases h with
  | undrawn hdraw => exact hphase
  | failed hdraw => exact nofun
  | crashed hdraw hpublish => exact hphase
  | accepted hdraw hpublish => exact nofun

theorem Launch.ends {w : World ω} {trigger : Trigger} {bid : Bid} (h : Launch w trigger l bid l')
    (hlast : (Deed.attempt bid).isLast = true) : l'.ending ≠ none := by
  rcases h.operation with ⟨-, text, hcrashed⟩ | ⟨hsome, -⟩
  · exact hcrashed ▸ Option.some_ne_none _
  · simp [Deed.isLast, hsome] at hlast

end Loop

/-- A loop that never waits to try again. The first error that it observes is the last of its deeds,
as is an attempt that crashes. -/
structure Unretried (c : Chronicle ω) : Prop where
  phase : c.loop.phase ≠ .backingOff
  statuses : ∀ status ∈ c.loop.statuses, status.phase ≠ .backingOff
  attempts : ∀ bid, .attempt bid ∈ c.deeds → bid.trigger ≠ .retry
  last : ∀ d ∈ c.deeds, d.isLast = true → c.deeds.head? = some d ∧ c.loop.ending ≠ none
  fatal : ∀ t e, .observe t (.error e) ∈ c.deeds → c.loop.escalated = [e]

namespace Unretried

variable {p : Plan ω} {c : Chronicle ω} {l : Loop ω} {ds : Deeds}

theorem new (world : ω) : Unretried (.new world) := by
  constructor <;> simp [Chronicle.new, Loop.new]

/-- Nothing is the last deed of a loop that goes on. -/
theorem isLast_eq_false (h : Unretried c) (hending : c.loop.ending = none) {d : Deed}
    (hd : d ∈ c.deeds) : d.isLast = false := by
  cases hlast : d.isLast with
  | false => rfl
  | true => exact absurd hending (h.last d hd hlast).2

theorem extend (h : Unretried c) (hending : c.loop.ending = none)
    (hstep : Loop.Step p c.loop ds l) (hphase : l.phase ≠ .backingOff)
    (hattempts : ∀ bid, .attempt bid ∈ ds → bid.trigger ≠ .retry)
    (hlast : ∀ d ∈ ds, d.isLast = true → ds.head? = some d ∧ l.ending ≠ none)
    (hfatal : ∀ t e, .observe t (.error e) ∈ ds → l.escalated = [e]) :
    Unretried ⟨l, ds ++ c.deeds⟩ where
  phase := hphase
  statuses status hstatus := by
    obtain ⟨told, htold, hcases⟩ := hstep.told
    rw [htold] at hstatus
    rcases List.mem_append.mp hstatus with hmem | hmem
    · rcases hcases status hmem with rfl | ⟨rfl, -⟩
      · exact hphase
      · exact nofun
    · exact h.statuses status hmem
  attempts bid hbid := (List.mem_append.mp hbid).elim (hattempts bid) (h.attempts bid)
  last d hd hdlast := by
    rcases List.mem_append.mp hd with hmem | hmem
    · obtain ⟨hhead, hended⟩ := hlast d hmem hdlast
      exact ⟨by simp [hhead], hended⟩
    · rw [h.isLast_eq_false hending hmem] at hdlast
      cases hdlast
  fatal t e hobserved := by
    rcases List.mem_append.mp hobserved with hmem | hmem
    · exact hfatal t e hmem
    · cases (h.isLast_eq_false hending hmem : true = false)

theorem attempt (h : Unretried c) (hending : c.loop.ending = none) {bid : Bid}
    (hstep : Loop.Step p c.loop (.attempt bid :: ds) l) (hphase : l.phase ≠ .backingOff)
    (htrigger : bid.trigger ≠ .retry)
    (hends : (Deed.attempt bid).isLast = true → l.ending ≠ none)
    (hds : ∀ d ∈ ds, ∃ t, d = .cancel t) : Unretried ⟨l, .attempt bid :: ds ++ c.deeds⟩ := by
  refine h.extend hending hstep hphase ?_ ?_ ?_
  · intro other hother
    rcases List.mem_cons.mp hother with heq | hmem
    · obtain rfl := Deed.attempt.inj heq
      exact htrigger
    · obtain ⟨t, ht⟩ := hds _ hmem
      cases ht
  · intro d hd hlast
    rcases List.mem_cons.mp hd with rfl | hmem
    · exact ⟨rfl, hends hlast⟩
    · obtain ⟨t, rfl⟩ := hds d hmem
      cases hlast
  · intro t e hobserved
    rcases List.mem_cons.mp hobserved with heq | hmem
    · cases heq
    · obtain ⟨_, ht⟩ := hds _ hmem
      cases ht

theorem quiet (h : Unretried c) (hending : c.loop.ending = none) {d : Deed}
    (hstep : Loop.Step p c.loop [d] l) (hphase : l.phase ≠ .backingOff)
    (hattempt : ∀ bid, d ≠ .attempt bid) (hlast : d.isLast = false) :
    Unretried ⟨l, [d] ++ c.deeds⟩ := by
  refine h.extend hending hstep hphase ?_ ?_ ?_
  · intro bid hbid
    exact absurd (List.mem_singleton.mp hbid).symm (hattempt bid)
  · intro other hother hlast'
    rw [List.mem_singleton.mp hother, hlast] at hlast'
    cases hlast'
  · intro t e hobserved
    rw [← List.mem_singleton.mp hobserved] at hlast
    cases hlast

theorem refuse (h : Unretried c) (hstrict : Strict p c) (hlimit : p.limit = 1)
    (hrunning : c.loop.Running) {now : Instant} {t : Tracked} {e : PublishError}
    (hstep : Loop.Step p c.loop [.observe t (.error e)] l)
    (hrefusal : Loop.Refusal p now e c.loop.observing l) :
    Unretried ⟨l, [.observe t (.error e)] ++ c.deeds⟩ := by
  have hle : p.limit ≤ c.loop.failures.toNat + 1 := by
    rw [hlimit]
    exact Nat.le_add_left 1 _
  have hge : ¬ Loop.countFailure c.loop.observing.failures < p.settings.maxAttempts :=
    fun hlt => Nat.not_lt_of_le hle ((Loop.countFailure_lt_iff p (hstrict.fits hrunning.2)).mp hlt)
  obtain ⟨hescalated, -, hended, -⟩ := hstrict.at_limit hrunning.2 hrefusal hle
  refine h.extend hrunning.2 hstep (hrefusal.phase_ne hge h.phase) ?_ ?_ ?_
  · intro bid hbid
    cases List.mem_singleton.mp hbid
  · intro d hd _
    rw [List.mem_singleton.mp hd]
    exact ⟨rfl, Option.isSome_iff_ne_none.mp hended⟩
  · intro t' e' hobserved
    obtain ⟨-, hsame⟩ := Deed.observe.inj (List.mem_singleton.mp hobserved)
    rw [Except.error.inj hsame]
    exact hescalated

theorem step (h : Unretried c) (hstrict : Strict p c) (hlimit : p.limit = 1)
    (hstep : Loop.Step p c.loop ds l) : Unretried ⟨l, ds ++ c.deeds⟩ := by
  -- What is told in a step does not depend on its kind, so the step itself is kept.
  have hsame := hstep
  cases hstep with
  | outside submissions world => exact ⟨h.phase, h.statuses, h.attempts, h.last, h.fatal⟩
  | begun hnew hbid hlaunch =>
      have hbootstrap : (Trigger.bootstrap : Trigger) ≠ .retry := by decide
      have hfirst : Phase.bootstrapping ≠ .backingOff := by decide
      exact h.attempt (by rw [hnew]; rfl) hsame (hlaunch.phase_ne hfirst) (hbid ▸ hbootstrap)
        hlaunch.ends (by simp)
  | halted hrunning =>
      have hstopped : Phase.stopped ≠ .backingOff := by decide
      exact h.quiet hrunning.2 hsame hstopped (by simp) rfl
  | rotated hrunning hlaunch =>
      have hscheduled : (Trigger.scheduled : Trigger) ≠ .retry := by decide
      exact h.attempt hrunning.2 hsame (hlaunch.phase_ne h.phase) (hlaunch.trigger_eq ▸ hscheduled)
        hlaunch.ends (by simp)
  | retried hrunning hphase hlaunch => exact absurd hphase h.phase
  | confirmed hrunning hphase hout =>
      have hidle : Phase.idle ≠ .backingOff := by decide
      exact h.quiet hrunning.2 hsame hidle (by simp) rfl
  | refused hrunning hphase hout hrefusal =>
      exact h.refuse hstrict hlimit hrunning hsame hrefusal

theorem run (world : ω) (hlimit : p.limit = 1) (turns : List (Loop.Turn ω)) :
    Unretried (.run p world turns) :=
  Strict.induction (new world) (fun _ _ _ hstrict hstep h => h.step hstrict hlimit hstep) turns

end Unretried

namespace Chronicle

variable {p : Plan ω} {c : Chronicle ω} {m : Machine}

/-- What a turn does is a transition of the machine, if it serves anything. -/
theorem mirrors_turn (t : Loop.Turn ω) (hc : c.Sound) (hfresh : c.Fresh) (hstrict : Strict p c)
    (hunretried : Unretried c) (hafter : Unretried (c.turn p t)) (hm : c.loop.machine? = some m)
    (hcrash : ∀ d ∈ (c.turn p t).deeds, d.crashes = false) :
    Mirrors m (c.loop.input? p t).toList c (c.turn p t) := by
  cases t with
  | report i outcome => exact mirrors_nil hm rfl
  | abandon i => exact mirrors_nil hm rfl
  | elapse world => exact mirrors_nil hm rfl
  | serve s now =>
      simp only [turn, serve, Loop.input?] at hafter hcrash ⊢
      cases hstarted : c.loop.started with
      | false =>
          obtain ⟨world, rfl⟩ := hfresh hstarted
          exact mirrors_start world now hm (hcrash _ List.mem_cons_self)
      | true =>
          simp only [hstarted, if_true] at hafter hcrash ⊢
          cases hnext : c.loop.next? s with
          | none => exact mirrors_nil hm rfl
          | some o =>
              simp only [hnext] at hafter hcrash ⊢
              obtain ⟨hending, hcause⟩ := Loop.next?_cases hnext
              have hsilent := hstrict.silent hending
              have hstage := Loop.machine?_of_running hm hc.posture ⟨hstarted, hending⟩ hsilent
                hunretried.phase
              cases o with
              | stop => exact mirrors_stop hm hsilent hstage
              | tick => exact mirrors_tick now hm hsilent hstage (hcrash _ List.mem_cons_self)
              | retry =>
                  have hbackoff : c.loop.backoff ≠ none := Option.isSome_iff_ne_none.mp hcause.1
                  exact absurd (hc.posture.phase_of_backoff hbackoff hending) hunretried.phase
              | outcome o =>
                  obtain ⟨-, hphase, -, -⟩ :=
                    hc.posture.of_tracked (Loop.tracked_ne_of_outcome? hcause)
                  simp only [Loop.react, Loop.settle_eq_observing] at hafter ⊢
                  cases o with
                  | ok _ => exact mirrors_ok now hc hm hsilent hphase hcause
                  | error e =>
                      have hfatal := hafter.fatal c.loop.tracked e List.mem_cons_self
                      exact mirrors_error now hm hsilent hphase hfatal

theorem mirrors_extend (hlimit : p.limit = 1) (hc : c.Sound) (hfresh : c.Fresh)
    (hstrict : Strict p c) (hunretried : Unretried c) (hm : c.loop.machine? = some m)
    (turns : List (Loop.Turn ω)) (hcrash : ∀ d ∈ (c.extend p turns).deeds, d.crashes = false) :
    Mirrors m (c.serviced p turns) c (c.extend p turns) := by
  induction turns generalizing c m with
  | nil => exact mirrors_nil hm rfl
  | cons t turns ih =>
      obtain ⟨ds, hstep, hds⟩ := step_turn p t hc hfresh
      have hstrict' : Strict p (c.turn p t) := by
        have h := hstrict.step hstep
        rwa [← hds] at h
      have hunretried' : Unretried (c.turn p t) := by
        have h := hunretried.step hstrict hlimit hstep
        rwa [← hds] at h
      have hsuffix := deeds_suffix_extend p (c.turn p t) turns
      have hturn := mirrors_turn t hc hfresh hstrict hunretried hunretried' hm
        fun d hd => hcrash d (hsuffix.subset hd)
      exact hturn.trans fun m' hm' => ih (sound_turn p t hc) (fresh_turn p t hfresh) hstrict'
        hunretried' hm' hcrash

/-- What is left of a turn when other attempts are allowed. Only if an error was observed, what
becomes of the loop may differ. -/
structure Agrees (c d : Chronicle ω) : Prop where
  deeds : d.deeds = c.deeds
  slots : d.loop.slots = c.loop.slots
  submissions : d.loop.submissions = c.loop.submissions
  world : d.loop.world = c.loop.world
  whole : ¬ c.deeds.Failed → d = c

theorem Agrees.refl (c : Chronicle ω) : c.Agrees c := ⟨rfl, rfl, rfl, rfl, fun _ => rfl⟩

theorem agrees_refuse (now : Instant) (e : PublishError) (maxAttempts : UInt32) (l : Loop ω)
    (t : Tracked) (ds : Deeds) :
    Agrees ⟨l.refuse p now e, .observe t (.error e) :: ds⟩
      ⟨l.refuse (p.allowing maxAttempts) now e, .observe t (.error e) :: ds⟩ := by
  obtain ⟨hslots, -, hsubmissions, hworld⟩ := Loop.refuse_keeps p now e l
  obtain ⟨hslots', -, hsubmissions', hworld'⟩ :=
    Loop.refuse_keeps (p.allowing maxAttempts) now e l
  refine ⟨rfl, hslots'.trans hslots.symm, hsubmissions'.trans hsubmissions.symm,
    hworld'.trans hworld.symm, ?_⟩
  intro hnone
  exact absurd ⟨t, e, List.mem_cons_self⟩ hnone

theorem agrees_turn (maxAttempts : UInt32) (c : Chronicle ω) (t : Loop.Turn ω) :
    (c.turn p t).Agrees (c.turn (p.allowing maxAttempts) t) := by
  cases t with
  | report i outcome => exact .refl _
  | abandon i => exact .refl _
  | elapse world => exact .refl _
  | serve s now =>
      simp only [turn, serve]
      cases hstarted : c.loop.started with
      | false => exact .refl _
      | true =>
          simp only [if_true]
          cases hnext : c.loop.next? s with
          | none => exact .refl _
          | some o =>
              cases o with
              | stop => exact .refl _
              | tick => exact .refl _
              | retry => exact .refl _
              | outcome o =>
                  cases o with
                  | ok _ => exact .refl _
                  | error e => exact agrees_refuse now e maxAttempts c.loop.settle _ _

/-- As long as no error is observed, it makes no difference how many attempts are allowed. -/
theorem extend_allowing (maxAttempts : UInt32) {c : Chronicle ω} {turns : List (Loop.Turn ω)}
    (hnone : ¬ (c.extend p turns).deeds.Failed) :
    c.extend (p.allowing maxAttempts) turns = c.extend p turns := by
  induction turns generalizing c with
  | nil => rfl
  | cons t turns ih =>
      have hturn : c.turn (p.allowing maxAttempts) t = c.turn p t := by
        apply (agrees_turn maxAttempts c t).whole
        rintro ⟨tracked, e, hobserved⟩
        exact hnone ⟨tracked, e, (deeds_suffix_extend p (c.turn p t) turns).subset hobserved⟩
      show (c.turn (p.allowing maxAttempts) t).extend (p.allowing maxAttempts) turns = _
      rw [hturn]
      exact ih hnone

/-- With one attempt, or none allowed, a loop never waits to try again and never does. Up to an
attempt that crashes, what it does with each turn is a transition of the machine that stops at the
first error: with the same keys, the same operation outstanding, and the same operations cancelled
and begun. The first error that is observed is the end, and so is a crash. If more attempts are
allowed, nothing is different up to the first error, and the turn that observes it still changes
neither the keys nor the submissions. -/
theorem machine_of_single_attempt (p : Plan ω) (world : ω) (turns : List (Loop.Turn ω))
    (hmax : p.settings.maxAttempts ≤ 1) :
    let c := run p world turns
    (c.loop.phase ≠ .backingOff ∧ ∀ status ∈ c.loop.statuses, status.phase ≠ .backingOff) ∧
    (∀ bid, .attempt bid ∈ c.deeds → bid.trigger ≠ .retry) ∧
    ((∀ d ∈ c.deeds, d.crashes = false) → ∃ m, c.loop.machine? = some m ∧
      Machine.initial.run ((new world).serviced p turns) = some (c.deeds.acts, m)) ∧
    (∀ (n : Nat) s, c.loop.submissions[n]? = some s →
      (s.cancelled = true ↔ .cancel (.submitted n) ∈ c.deeds)) ∧
    (∀ t e, .observe t (.error e) ∈ c.deeds →
      c.deeds.head? = some (.observe t (.error e)) ∧ c.loop.escalated = [e] ∧
        c.loop.hasEnded = true) ∧
    (∀ d ∈ c.deeds, d.crashes = true → c.deeds.head? = some d ∧ c.loop.hasEnded = true) ∧
    ∀ maxAttempts, ¬ c.deeds.Failed →
      run (p.allowing maxAttempts) world turns = c ∧
        ∀ t, (c.turn p t).Agrees (c.turn (p.allowing maxAttempts) t) := by
  intro c
  have hlimit : p.limit = 1 := by
    have hle : p.settings.maxAttempts.toNat ≤ 1 := UInt32.le_iff_toNat_le.mp hmax
    exact Nat.max_eq_left hle
  have hc : c.Sound := sound_run p world turns
  have hunretried : Unretried c := Unretried.run world hlimit turns
  refine ⟨⟨hunretried.phase, hunretried.statuses⟩, hunretried.attempts, ?_, ?_, ?_, ?_, ?_⟩
  · intro hcrash
    obtain ⟨acts, m, hrun, hm, hacts⟩ := mirrors_extend (m := .initial) hlimit (sound_new world)
      (fun _ => ⟨world, rfl⟩) (Strict.new p world) (Unretried.new world) rfl turns hcrash
    refine ⟨m, hm, hrun.trans ?_⟩
    rw [show c.deeds.acts = _ from hacts]
    rfl
  · intro n s hs
    exact hc.accounted.cancelled_iff hs
  · intro t e hobserved
    obtain ⟨hhead, hended⟩ := hunretried.last _ hobserved rfl
    exact ⟨hhead, hunretried.fatal t e hobserved, Option.isSome_iff_ne_none.mpr hended⟩
  · intro d hd hcrashes
    obtain ⟨hhead, hended⟩ := hunretried.last d hd (Deed.isLast_of_crashes hcrashes)
    exact ⟨hhead, Option.isSome_iff_ne_none.mpr hended⟩
  · intro maxAttempts hnone
    exact ⟨extend_allowing maxAttempts hnone, agrees_turn maxAttempts c⟩

end Chronicle

end

namespace Chronicle

/-- The first key cannot be made, which is the end. If three attempts are allowed, the first one is
the same. -/
theorem machine_of_single_attempt_failed :
    letI : Scheme := .plain
    let serve : Loop.Turn Unit := .serve ⟨false, false, false⟩ 0
    let e : PublishError := .keyGeneration "Cryptographic error: no entropy"
    let c := run (barren 1) () [serve, serve]
    (∃ m, c.loop.machine? = some m ∧
      Machine.initial.run [.start (.failed e), .completed (.failed e) (.error e)] =
        some ([.attempt none (.failed e)], m)) ∧
      c.loop.escalated = [e] ∧ run (barren 3) () [serve] = run (barren 1) () [serve] := by
  let _ : Scheme := .plain
  let serve : Loop.Turn Unit := .serve ⟨false, false, false⟩ 0
  have hnone : ¬ (run (barren 1) () [serve]).deeds.Failed := by
    rintro ⟨t, e, hobserved⟩
    cases List.mem_singleton.mp hobserved
  have hcrash : ∀ d ∈ (run (barren 1) () [serve, serve]).deeds, d.crashes = false :=
    fun d hd => Bool.eq_false_iff.mpr (List.any_eq_false.mp rfl d hd)
  obtain ⟨-, -, hmachine, -, hfirst, -, -⟩ :=
    machine_of_single_attempt (barren 1) () [serve, serve] (by decide)
  obtain ⟨-, -, -, -, -, -, hallowed⟩ :=
    machine_of_single_attempt (barren 1) () [serve] (by decide)
  obtain ⟨-, hescalated, -⟩ := hfirst _ _ List.mem_cons_self
  exact ⟨hmachine hcrash, hescalated, (hallowed 3 hnone).1⟩

end Chronicle

end Keyring
