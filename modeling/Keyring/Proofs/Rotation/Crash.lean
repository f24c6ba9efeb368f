import Keyring.Proofs.Rotation.Ending
import Keyring.Proofs.Rotation.Succession
import Keyring.Rotation.Ownership
import Keyring.Rotation.View

namespace Keyring

open Rotation

theorem Rotation.Ownership.poll_of_ended {o : Ownership}
    (h : (∃ shutdown, o.handle = .given shutdown) ∨ o.handle = .waiting) :
    (o.poll true).handle = .gone := by
  unfold Ownership.poll
  rcases h with ⟨shutdown, hgiven⟩ | hwaiting
  · rw [hgiven]
    rfl
  · rw [hwaiting]
    rfl

section

variable [Scheme] {ω : Type}

namespace Loop

variable {p : Plan ω} {l l' : Loop ω} {ds : Deeds}

/-- The key that is told to be in use is the one in use. -/
def Candid (l : Loop ω) : Prop := l.status.active = l.slots.activeId

theorem Candid.of_kept (h : l.Candid) (hstatuses : l'.statuses = l.statuses)
    (hactive : l'.slots.active = l.slots.active) : l'.Candid := by
  unfold Candid status Slots.activeId at h ⊢
  rw [hstatuses, hactive]
  exact h

theorem candid_of_told {told : List Status} (h : l.statuses = l.snapshot :: told) : l.Candid := by
  unfold Candid status
  rw [h]
  rfl

theorem Launch.candid {w : World ω} {trigger : Trigger} {bid : Bid}
    (h : Launch w trigger l bid l') (hl : l.Candid) : l'.Candid := by
  rcases h.told with ⟨-, hsame⟩ | ⟨-, -, htold⟩
  · exact hl.of_kept hsame h.keeps.1
  · exact candid_of_told htold

theorem Step.candid (h : Step p l ds l') (hl : l.Candid) : l'.Candid := by
  cases h with
  | outside submissions world => exact hl
  | begun hnew hbid hlaunch =>
      have hstarting : (l.starting p).Candid := by rw [hnew]; rfl
      exact hlaunch.candid hstarting
  | halted hrunning => exact candid_of_told (statuses_finish _ _)
  | rotated hrunning hlaunch => exact hlaunch.candid hl
  | retried hrunning hphase hlaunch => exact hlaunch.candid hl
  | confirmed hrunning hphase hout => exact candid_of_told (statuses_report _ _)
  | refused hrunning hphase hout hrefusal =>
      cases hrefusal with
      | backedOff hlt => exact candid_of_told (statuses_report _ _)
      | returned hge hescalate => exact candid_of_told (statuses_finish _ _)
      | crashed hge hescalate => exact hl
      | exited hge hescalate => exact hl

theorem lock_of_poisoned (h : l.poisoned = true) : l.lock = .error l.slots := if_pos h

theorem lock_of_clean (h : l.poisoned = false) : l.lock = .ok l.slots := by
  rw [lock, h]
  rfl

theorem Launch.poisoned_eq {w : World ω} {trigger : Trigger} {bid : Bid}
    (h : Launch w trigger l bid l') (hds : ds.any Deed.crashes = false) :
    l'.poisoned = ((.attempt bid :: ds).any Deed.crashes || l.poisoned) := by
  rw [List.any_cons, hds, Bool.or_false]
  cases h <;> rfl

/-- Only an attempt that crashes poisons the lock on the keys. -/
theorem Step.poisoned_eq (h : Step p l ds l') :
    l'.poisoned = (ds.any Deed.crashes || l.poisoned) := by
  cases h with
  | outside submissions world => rfl
  | begun hnew hbid hlaunch => exact hlaunch.poisoned_eq rfl
  | halted hrunning => rfl
  | rotated hrunning hlaunch => exact hlaunch.poisoned_eq rfl
  | retried hrunning hphase hlaunch => exact hlaunch.poisoned_eq rfl
  | confirmed hrunning hphase hout => rfl
  | refused hrunning hphase hout hrefusal => cases hrefusal <;> rfl

theorem Step.lock_of_crash {bid : Bid} (h : Step p l (.attempt bid :: ds) l')
    (hoperation : bid.operation = none) : l'.lock = .error l'.slots := by
  apply lock_of_poisoned
  rw [h.poisoned_eq, List.any_cons, Deed.crashes, hoperation]
  rfl

theorem Launch.of_undrawn {w : World ω} {trigger : Trigger} {bid : Bid} {text : String}
    (h : Launch w trigger l bid l') (hdraw : bid.draw = .crashed text) :
    bid.operation = none ∧ l'.ending = some (.crashed text) ∧ l'.slots = l.slots ∧
      l'.status = l.status := by
  cases h with
  | undrawn hdrawn =>
      cases hdraw
      exact ⟨rfl, rfl, rfl, rfl⟩
  | failed hdrawn => cases hdraw
  | crashed hdrawn hpublish => cases hdraw
  | accepted hdrawn hpublish => cases hdraw

theorem Launch.of_unpublished {w : World ω} {trigger : Trigger} {bid : Bid} {k : SigningKey}
    (h : Launch w trigger l bid l') (hdraw : bid.draw = .key k)
    (hoperation : bid.operation = none) :
    ∃ text, (∃ between after, w.publish k.jwk (bid.signer.getD k) bid.earlier between =
        (.crashed text, after)) ∧
      l'.ending = some (.crashed text) ∧ l'.slots = l.slots.propose k ∧ l'.status = l.status := by
  cases h with
  | undrawn hdrawn => cases hdraw
  | failed hdrawn => cases hdraw
  | crashed hdrawn hpublish =>
      cases hdraw
      exact ⟨_, ⟨_, _, hpublish⟩, rfl, rfl, rfl⟩
  | accepted hdrawn hpublish => cases hoperation

/-- A step that makes an attempt is the launch of it, with the keys and the status that there
were. -/
theorem Step.of_attempt {bid : Bid} (h : Step p l (.attempt bid :: ds) l') :
    ∃ trigger before launched, Launch p.world trigger before bid launched ∧
      before.slots = l.slots ∧ before.status = l.status ∧ l'.ending = launched.ending ∧
      l'.slots = launched.slots ∧ l'.status = launched.status := by
  cases h with
  | begun hnew hbid hlaunch =>
      refine ⟨_, _, _, hlaunch, rfl, ?_, rfl, rfl, rfl⟩
      rw [hnew]
      rfl
  | rotated hrunning hlaunch => exact ⟨_, _, _, hlaunch, rfl, rfl, rfl, rfl, rfl⟩
  | retried hrunning hphase hlaunch => exact ⟨_, _, _, hlaunch, rfl, rfl, rfl, rfl, rfl⟩

theorem Step.of_undrawn {bid : Bid} {text : String} (h : Step p l (.attempt bid :: ds) l')
    (hdraw : bid.draw = .crashed text) :
    bid.operation = none ∧ l'.ending = some (.crashed text) ∧ l'.slots = l.slots ∧
      l'.status = l.status := by
  obtain ⟨trigger, before, launched, hlaunch, hkeys, htold, hending, hslots, hstatus⟩ :=
    h.of_attempt
  obtain ⟨hoperation, hcrashed, hkept, hsilent⟩ := hlaunch.of_undrawn hdraw
  exact ⟨hoperation, hending.trans hcrashed, hslots.trans (hkept.trans hkeys),
    hstatus.trans (hsilent.trans htold)⟩

theorem Step.of_unpublished {bid : Bid} {k : SigningKey} (h : Step p l (.attempt bid :: ds) l')
    (hdraw : bid.draw = .key k) (hoperation : bid.operation = none) :
    ∃ text, (∃ between after, p.world.publish k.jwk (bid.signer.getD k) bid.earlier between =
        (.crashed text, after)) ∧
      l'.ending = some (.crashed text) ∧ l'.slots = ⟨l.slots.active, some k⟩ ∧
        l'.status = l.status := by
  obtain ⟨trigger, before, launched, hlaunch, hkeys, htold, hending, hslots, hstatus⟩ :=
    h.of_attempt
  obtain ⟨text, hpublish, hcrashed, hproposed, hsilent⟩ := hlaunch.of_unpublished hdraw hoperation
  refine ⟨text, hpublish, hending.trans hcrashed, ?_, hstatus.trans (hsilent.trans htold)⟩
  rw [hslots, hproposed, hkeys]
  rfl

/-- A failure that crashes those it is escalated to. -/
theorem Step.of_escalation {e : PublishError} {text : String} (h : Step p l ds l')
    (hescalated : l'.escalated = e :: l.escalated) (hcrashes : p.world.escalate e = .crashes text) :
    l.ending = none ∧ (∃ t, ds = [.observe t (.error e)]) ∧
      l'.ending = some (.crashed text) ∧ l'.slots = l.slots ∧ l'.status = l.status := by
  have hne : l.escalated ≠ e :: l.escalated := (List.cons_ne_self e l.escalated).symm
  rcases h.escalated_cases with hsame | ⟨t, e', rfl, hescalated'⟩
  · exact absurd (hsame.symm.trans hescalated) hne
  · obtain rfl : e' = e := (List.cons.inj (hescalated'.symm.trans hescalated)).1
    obtain ⟨hrunning, now, hrefusal⟩ := h.of_failure
    cases hrefusal with
    | backedOff hlt => exact absurd hescalated hne
    | returned hge hescalate => cases hcrashes.symm.trans hescalate
    | crashed hge hescalate =>
        cases hcrashes.symm.trans hescalate
        exact ⟨hrunning.2, ⟨t, rfl⟩, rfl, rfl, rfl⟩
    | exited hge hescalate => cases hcrashes.symm.trans hescalate

end Loop

/-- What is left for good when a turn ends with a crash: the key in use and the latest status of
before answer all that ask, nothing more is done, and who waits is told. -/
structure Wreck (p : Plan ω) (c d : Chronicle ω) (text : String) : Prop where
  finished : d.deeds.AllFinished d.loop.submissions
  silent : ∀ more, (d.extend p more).deeds = d.deeds
  lock : ∀ more, (d.extend p more).loop.lock = d.loop.lock
  keys : ∀ more, (d.extend p more).loop.keys = d.loop.slots
  activeKey : ∀ more, (d.extend p more).loop.activeKey = c.loop.activeKey
  status : ∀ more, (d.extend p more).loop.status = c.loop.status
  firstKey : ∀ more, (d.extend p more).loop.firstKey? = some
    (match c.loop.slots.active with
    | some k => .ok k
    | none => .error .rotationStopped)
  result : ∀ more task, (d.extend p more).loop.result? task = some
    (.error (.task ("task " ++ task ++ " panicked with message " ++ Text.quoted text)))
  resolves : ∀ more (o : Ownership),
    (∃ shutdown, o.handle = .given shutdown) ∨ o.handle = .waiting →
    (o.poll (d.extend p more).loop.hasEnded).handle = .gone

/-- Whoever waits for a first key is told once the loop has ended. -/
theorem Loop.Candid.firstKey? {l : Loop ω} (h : l.Candid) (hended : l.hasEnded = true) :
    l.firstKey? = some (match l.slots.active with
      | some k => .ok k
      | none => .error .rotationStopped) := by
  unfold Loop.firstKey? Loop.activeKey
  rw [h, Slots.activeId, Loop.keys_eq]
  cases l.slots.active <;> simp [hended]

namespace Chronicle

theorem candid_run (p : Plan ω) (world : ω) (turns : List (Loop.Turn ω)) :
    (run p world turns).loop.Candid :=
  step_induction (P := fun c => c.loop.Candid) rfl (fun _ _ _ _ hstep h => hstep.candid h) turns

theorem wreck_of_crashed (p : Plan ω) {c d : Chronicle ω} {text : String} (hd : d.Sound)
    (hcandid : d.loop.Candid) (hcrashed : d.loop.ending = some (.crashed text))
    (hactive : d.loop.slots.active = c.loop.slots.active)
    (hstatus : d.loop.status = c.loop.status) : Wreck p c d text := by
  have hended : d.loop.ending ≠ none := by rw [hcrashed]; nofun
  have hposture := hd.posture
  unfold Loop.Posture at hposture
  have hstarted : d.loop.started = true := hposture.started_of_ending hended
  have htracked : d.loop.tracked = .inert := by
    by_contra hne
    exact hended (hposture.of_tracked hne).2.2.2
  have haccounted := hd.accounted
  rw [htracked] at haccounted
  have hsame := extend_of_ended p hstarted hended
  refine ⟨haccounted.allFinished, ?_, ?_, ?_, ?_, ?_, ?_, ?_, ?_⟩
  all_goals
    intro more
    obtain ⟨submissions, world, heq⟩ := hsame more
    rw [heq]
  · rfl
  · exact Loop.keys_eq _
  · simp only [Loop.activeKey, Loop.keys_eq, hactive]
  · exact hstatus
  · rw [← hactive]
    exact Loop.Candid.firstKey? (l := { d.loop with submissions, world }) hcandid
      (Option.isSome_iff_ne_none.mpr hended)
  · intro task
    simp only [Loop.result?, hcrashed]
  · intro o hcall
    rw [show Loop.hasEnded { d.loop with submissions, world } = true from
      Option.isSome_iff_ne_none.mpr hended]
    exact o.poll_of_ended hcall

/-- The lock on the keys is poisoned exactly if an attempt crashed. -/
theorem poisoned_run (p : Plan ω) (world : ω) (turns : List (Loop.Turn ω)) :
    (run p world turns).loop.poisoned = (run p world turns).deeds.any Deed.crashes := by
  apply step_induction (P := fun c => c.loop.poisoned = c.deeds.any Deed.crashes)
  · rfl
  · intro c ds l _ hstep h
    rw [hstep.poisoned_eq, h, List.any_append]

/-- A crash does not touch the key in use, wherever it strikes: at the source of keys, at the key
server, or at those a failure is escalated to. The keys that are left can be read although the lock
is poisoned by the first two. -/
theorem crash_keeps_serving (p : Plan ω) (world : ω) (turns : List (Loop.Turn ω))
    (t : Loop.Turn ω) :
    let c := run p world turns
    let d := c.turn p t
    (∀ bid ds text, d.deeds = .attempt bid :: ds ++ c.deeds → bid.draw = .crashed text →
      Wreck p c d text ∧ d.loop.slots = c.loop.slots ∧ d.loop.lock = .error c.loop.slots) ∧
    (∀ bid ds k, d.deeds = .attempt bid :: ds ++ c.deeds → bid.draw = .key k →
      bid.operation = none → ∃ text,
        (∃ between after, p.world.publish k.jwk (bid.signer.getD k) bid.earlier between =
          (.crashed text, after)) ∧
        Wreck p c d text ∧ d.loop.slots = ⟨c.loop.slots.active, some k⟩ ∧
        d.loop.lock = .error ⟨c.loop.slots.active, some k⟩) ∧
    ∀ e text, d.loop.escalated = e :: c.loop.escalated → p.world.escalate e = .crashes text →
      Wreck p c d text ∧ d.loop.slots = c.loop.slots ∧ d.loop.lock = .ok c.loop.slots := by
  intro c d
  obtain ⟨ds, hstep, hdeeds⟩ : ∃ ds, Loop.Step p c.loop ds d.loop ∧ d.deeds = ds ++ c.deeds :=
    step_turn_run p world turns t
  have hd : d.Sound := sound_turn p t (sound_run p world turns)
  have hcandid : d.loop.Candid := hstep.candid (candid_run p world turns)
  refine ⟨?_, ?_, ?_⟩
  · intro bid rest text hattempt hdraw
    obtain rfl := List.append_cancel_right (hdeeds.symm.trans hattempt)
    obtain ⟨hoperation, hcrashed, hslots, hstatus⟩ := hstep.of_undrawn hdraw
    refine ⟨?_, hslots, ?_⟩
    · exact wreck_of_crashed p hd hcandid hcrashed (by rw [hslots]) hstatus
    · rw [← hslots]
      exact hstep.lock_of_crash hoperation
  · intro bid rest k hattempt hdraw hoperation
    obtain rfl := List.append_cancel_right (hdeeds.symm.trans hattempt)
    obtain ⟨text, hpublish, hcrashed, hslots, hstatus⟩ := hstep.of_unpublished hdraw hoperation
    refine ⟨text, hpublish, ?_, hslots, ?_⟩
    · exact wreck_of_crashed p hd hcandid hcrashed (by rw [hslots]) hstatus
    · rw [← hslots]
      exact hstep.lock_of_crash hoperation
  · intro e text hescalated hcrashes
    obtain ⟨hending, ⟨t, rfl⟩, hcrashed, hslots, hstatus⟩ :=
      hstep.of_escalation hescalated hcrashes
    -- No attempt crashed before, as the loop was still running.
    have hclean : ¬ CutOff p c := fun hcut =>
      Loop.not_severed_of_none hending ((severed_run p world turns).mp hcut)
    refine ⟨?_, hslots, ?_⟩
    · exact wreck_of_crashed p hd hcandid hcrashed (by rw [hslots]) hstatus
    · rw [← hslots]
      apply Loop.lock_of_clean
      rw [hstep.poisoned_eq, poisoned_run]
      exact Bool.eq_false_iff.mpr fun hcrash => hclean (Or.inl hcrash)

end Chronicle

end

namespace Chronicle

/-- A plan whose source of keys crashes. -/
def keyless [Scheme] : Plan Unit := { eager with
  world := { eager.world with draw := fun _ => (.crashed "no entropy", ()) } }

/-- A plan whose key server takes one key and crashes at the next. -/
def brittle [Scheme] : Plan Unit := { eager with
  world := { eager.world with
    publish := fun _ _ earlier _ =>
      (if earlier.isEmpty then .accepted (some (.ok ())) else .crashed "no route", ()) } }

/-- One crash of each kind: at the first key, at the second one while the first is in use, and at a
failure. -/
theorem crash_keeps_serving_each :
    letI : Scheme := .plain
    let serve (tick : Bool) : Loop.Turn Unit := .serve ⟨false, tick, false⟩ 0
    let undrawn := run keyless () [serve false]
    let unpublished := run brittle () [serve false, serve false, serve true]
    let escalated := run doomed () [serve false, serve false]
    (undrawn.loop.lock = .error .empty ∧
      ∀ more, (undrawn.extend keyless more).loop.firstKey? = some (.error .rotationStopped)) ∧
    (unpublished.loop.lock = .error ⟨some (.numbered 1), some (.numbered 1)⟩ ∧
      ∀ more, (unpublished.extend brittle more).loop.firstKey? = some (.ok (.numbered 1))) ∧
    escalated.loop.lock = .ok .empty ∧
      ∀ more, ∃ e, (escalated.extend doomed more).loop.result? "9" = some (.error (.task e)) := by
  let _ : Scheme := .plain
  let serve (tick : Bool) : Loop.Turn Unit := .serve ⟨false, tick, false⟩ 0
  obtain ⟨hundrawn, -, hempty⟩ :=
    (crash_keeps_serving keyless () [] (serve false)).1 _ [] "no entropy" rfl rfl
  obtain ⟨text, -, hunpublished, -, hlock⟩ :=
    (crash_keeps_serving brittle () [serve false, serve false] (serve true)).2.1 _
      [.cancel .inert] (.numbered 1) rfl rfl rfl
  obtain ⟨hescalated, -, hclean⟩ :=
    (crash_keeps_serving doomed () [serve false] (serve false)).2.2 _ "boom" rfl rfl
  exact ⟨⟨hempty, hundrawn.firstKey⟩, ⟨hlock, hunpublished.firstKey⟩, hclean,
    fun more => ⟨_, hescalated.result more "9"⟩⟩

end Chronicle

end Keyring
