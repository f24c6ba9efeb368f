import Keyring.Proofs.Server
import Keyring.Proofs.SigningKey
import Keyring.Proofs.Trial.Run

namespace Keyring

open Rotation

variable [Scheme]

namespace Server

/-- The record is that of an attempt the loop made. Its key was vouched for by the key of the
publication that had succeeded last by then, as far as the loop had observed; that is also the
latest one of those that had succeeded. Before the first success the key vouched for itself. -/
def Record.Vouched (ds : Deeds) (records : List Record) (n : Nat) (r : Record) : Prop :=
  ∃ (later : Deeds) (bid : Bid) (before : Deeds), ds = later ++ .attempt bid :: before ∧
    bid.operation = some (.submitted n) ∧ (∃ k, bid.draw = .key k ∧ r.key = k.id) ∧
    (before.lastSuccess = none → r.signer = r.key) ∧
    ∀ t, before.lastSuccess = some t → ∃ m q, t = .submitted m ∧ m < n ∧ records[m]? = some q ∧
      r.signer = q.key ∧ ∀ i, .observe (.submitted i) (.ok ()) ∈ before → i ≤ m

structure Record.Faultless (r : Record) : Prop where
  live : r.live = []
  trusted : r.trusted = true
  valid : Scheme.Sound → r.valid = true

theorem Record.Vouched.cons {ds : Deeds} {records : List Record} {n : Nat} {r : Record}
    (h : r.Vouched ds records n) (d : Deed) : r.Vouched (d :: ds) records n := by
  obtain ⟨later, bid, before, rfl, hbid⟩ := h
  exact ⟨d :: later, bid, before, rfl, hbid⟩

theorem Record.Vouched.append {ds : Deeds} {records : List Record} {n : Nat} {r : Record}
    (h : r.Vouched ds records n) (more : List Record) : r.Vouched ds (records ++ more) n := by
  obtain ⟨later, bid, before, rfl, hoperation, hkey, hself, hsigner⟩ := h
  refine ⟨later, bid, before, rfl, hoperation, hkey, hself, ?_⟩
  intro t ht
  obtain ⟨m, q, hm, hlt, hq, hrest⟩ := hsigner t ht
  have hlength := (List.getElem?_eq_some_iff.mp hq).1
  exact ⟨m, q, hm, hlt, (List.getElem?_append_left hlength).trans hq, hrest⟩

end Server

/-- A key server and a loop agree: the server has a record of each submission, it holds
submissions it has yet to report on only, and it has accepted what succeeds and the key in use. -/
structure Agreement (ds : Deeds) (slots : Slots) (submissions : Submissions) (server : Server) :
    Prop where
  length : server.records.length = submissions.length
  faultless : ∀ r ∈ server.records, r.Faultless
  vouched : ∀ (n : Nat) (r : Server.Record), server.records[n]? = some r →
    r.Vouched ds server.records n
  nodup : server.held.Nodup
  held : ∀ i ∈ server.held, ∃ s, submissions[i]? = some s ∧ s.report = .waiting
  accepted : ∀ (n : Nat) (r : Server.Record) (s : Submission), server.records[n]? = some r →
    submissions[n]? = some s → s.report = .ready (.ok ()) → server.isTrusted r.key = true
  active : ∀ k, slots.active = some k → server.isTrusted k.id = true

namespace Agreement

variable {ds : Deeds} {slots : Slots} {submissions : Submissions} {server : Server}

theorem new (script : List Server.Verdict) (otherwise : Server.Verdict) :
    Agreement [] .empty [] (.new script otherwise) where
  length := rfl
  faultless r hr := by cases hr
  vouched n r hr := by cases hr
  nodup := List.nodup_nil
  held i hi := by cases hi
  accepted n r s hr := by cases hr
  active k hk := by cases hk

theorem cons (h : Agreement ds slots submissions server) (d : Deed) {slots' : Slots}
    (hactive : ∀ k, slots'.active = some k → server.isTrusted k.id = true) :
    Agreement (d :: ds) slots' submissions server :=
  { h with
    vouched := fun n r hr => (h.vouched n r hr).cons d
    active := hactive }

theorem amend (h : Agreement ds slots submissions server) (t : Tracked)
    {f : Submission → Submission} (hf : ∀ s : Submission, s.Awaited (f s)) :
    Agreement ds slots (t.amend f submissions) server := by
  refine { h with length := ?_, held := ?_, accepted := ?_ }
  · rw [Tracked.length_amend]
    exact h.length
  · intro i hi
    obtain ⟨r, hr, hwaiting⟩ := h.held i hi
    have hlt : i < (t.amend f submissions).length := by
      rw [Tracked.length_amend]
      exact (List.getElem?_eq_some_iff.mp hr).1
    refine ⟨_, List.getElem?_eq_getElem hlt, ?_⟩
    rcases Tracked.getElem?_amend (List.getElem?_eq_getElem hlt) with ⟨-, s, hs, heq⟩ | ⟨-, hs⟩
    · obtain rfl : s = r := Option.some.inj (hs.symm.trans hr)
      rw [← heq]
      rcases hf s with hsame | ⟨hne, -⟩
      · rw [hsame, hwaiting]
      · exact absurd hwaiting hne
    · rw [hr] at hs
      rw [← Option.some.inj hs, hwaiting]
  · intro n r s hr hs hready
    rcases Tracked.getElem?_amend hs with ⟨-, s', hs', rfl⟩ | ⟨-, hs'⟩
    · rcases hf s' with hsame | ⟨-, hspent⟩
      · exact h.accepted n r s' hr hs' (hsame.symm.trans hready)
      · rw [hspent] at hready
        cases hready
    · exact h.accepted n r s hr hs' hready

/-- An attempt that was accepted is on record, with the key it was made for. -/
theorem record_of_bid (h : Agreement ds slots submissions server) {tracked : Tracked}
    (haccounted : Accounted ds slots tracked submissions) {bid : Bid} {n : Nat}
    (hbid : .attempt bid ∈ ds) (hoperation : bid.operation = some (.submitted n)) :
    ∃ r k, server.records[n]? = some r ∧ bid.draw = .key k ∧ r.key = k.id := by
  have hlt : n < submissions.length :=
    haccounted.lt_length (Deeds.mem_about.mpr ⟨hbid, Deed.number?_attempt hoperation⟩)
  have hr := List.getElem?_eq_getElem (h.length.symm ▸ hlt)
  obtain ⟨later, other, before, hds, hoperation', ⟨k, hdraw, hkey⟩, -⟩ := h.vouched n _ hr
  have hother : .attempt other ∈ ds := by
    rw [hds]
    simp
  obtain rfl := haccounted.bid_unique hbid hoperation hother hoperation'
  exact ⟨_, k, hr, hdraw, hkey⟩

theorem exists_record (h : Agreement ds slots submissions server) {tracked : Tracked}
    (haccounted : Accounted ds slots tracked submissions) {n : Nat} {k : SigningKey}
    (hcarries : ds.Carries n k) :
    ∃ r, server.records[n]? = some r ∧ r.key = k.id ∧ n < submissions.length := by
  obtain ⟨bid, hbid, hoperation, hdraw⟩ := hcarries
  obtain ⟨r, k', hr, hdraw', hkey⟩ := h.record_of_bid haccounted hbid hoperation
  obtain rfl : k = k' := Draw.key.inj (hdraw.symm.trans hdraw')
  exact ⟨r, hr, hkey, h.length ▸ (List.getElem?_eq_some_iff.mp hr).1⟩

theorem heldWhere_live (h : Agreement ds slots submissions server)
    (haccounted : Accounted ds slots .inert submissions) :
    server.heldWhere (!·.cancelled) submissions = [] := by
  apply Server.heldWhere_eq_nil
  intro i hi t ht
  obtain ⟨s, hs, hwaiting⟩ := h.held i hi
  obtain rfl : s = t := Option.some.inj (hs.symm.trans ht)
  rw [haccounted.cancelled_of_waiting hs hwaiting]
  rfl

/-- A key that is submitted is vouched for by a key that the server has accepted, or by itself if
there was no success yet. -/
theorem faultless_inspect (h : Agreement ds slots submissions server)
    (haccounted : Accounted ds slots .inert submissions) (k : SigningKey) :
    (server.inspect k.jwk (slots.active.getD k) submissions).Faultless where
  live := h.heldWhere_live haccounted
  trusted := by
    cases hactive : slots.active with
    | none => simp [Server.inspect, SigningKey.jwk]
    | some a => simp [Server.inspect, h.active a hactive]
  valid hsound := SigningKey.verify_sign hsound _ _

theorem vouched_inspect (h : Agreement ds slots submissions server)
    (haccounted : Accounted ds slots .inert submissions) {bid : Bid} {k : SigningKey}
    (hoperation : bid.operation = some (.submitted submissions.length))
    (hdraw : bid.draw = .key k) :
    (server.inspect k.jwk (slots.active.getD k) submissions).Vouched (.attempt bid :: ds)
      server.records submissions.length := by
  refine ⟨[], bid, ds, rfl, hoperation, ⟨k, hdraw, rfl⟩, ?_, ?_⟩
  · intro hnone
    simp [Server.inspect, haccounted.idle hnone, SigningKey.jwk]
  · intro t ht
    obtain ⟨n, a, hn, hcarries, hactive, hlatest⟩ := haccounted.active t ht
    obtain ⟨r, hr, hkey, hlt⟩ := h.exists_record haccounted hcarries
    refine ⟨n, r, hn, hlt, hr, ?_, hlatest⟩
    simp [Server.inspect, hactive, hkey]

theorem count_not_mem_held (h : Agreement ds slots submissions server) :
    server.count ∉ server.held := by
  intro hcount
  obtain ⟨s, hs, -⟩ := h.held _ hcount
  have hlt := (List.getElem?_eq_some_iff.mp hs).1
  rw [Server.count, h.length] at hlt
  exact Nat.lt_irrefl _ hlt

theorem submit (h : Agreement ds slots submissions server)
    (haccounted : Accounted ds slots .inert submissions) {bid : Bid} {k : SigningKey}
    (hoperation : bid.operation = some (.submitted submissions.length))
    (hdraw : bid.draw = .key k) :
    Agreement (.attempt bid :: ds) (slots.propose k)
      (submissions ++ [Submission.opened server.verdict.outcome?])
      (server.publish k.jwk (slots.active.getD k) submissions).2 where
  length := by simp [Server.records_publish, h.length]
  faultless r hr := by
    rw [Server.records_publish] at hr
    rcases List.mem_append.mp hr with hr | hr
    · exact h.faultless r hr
    · rw [List.mem_singleton.mp hr]
      exact h.faultless_inspect haccounted k
  vouched n r hr := by
    rw [Server.records_publish] at hr ⊢
    apply Server.Record.Vouched.append
    rcases getElem?_concat_cases hr with ⟨-, hr⟩ | ⟨rfl, rfl⟩
    · exact (h.vouched n r hr).cons _
    · rw [h.length]
      exact h.vouched_inspect haccounted hoperation hdraw
  nodup := Server.nodup_held_publish h.nodup h.count_not_mem_held
  held i hi := by
    rcases Server.mem_held_publish.mp hi with hi | ⟨hhold, rfl⟩
    · obtain ⟨s, hs, hwaiting⟩ := h.held i hi
      have hlt := (List.getElem?_eq_some_iff.mp hs).1
      exact ⟨s, (List.getElem?_append_left hlt).trans hs, hwaiting⟩
    · rw [Server.count, h.length, hhold]
      exact ⟨_, List.getElem?_concat_length, rfl⟩
  accepted n r s hr hs hready := by
    rw [Server.records_publish] at hr
    rw [Server.isTrusted_publish]
    rcases getElem?_concat_cases hr with ⟨hlt, hr⟩ | ⟨rfl, rfl⟩
    · rw [List.getElem?_append_left (h.length ▸ hlt)] at hs
      exact Or.inl (h.accepted n r s hr hs hready)
    · rw [h.length, List.getElem?_concat_length] at hs
      obtain rfl := Option.some.inj hs
      have houtcome := Submission.eq_of_report_opened hready
      exact Or.inr ⟨Server.Verdict.eq_succeed_of_outcome? houtcome, rfl⟩
  active a ha := Server.isTrusted_publish.mpr (Or.inl (h.active a ha))

theorem complete (h : Agreement ds slots submissions server) (i : Nat) (outcome : Outcome) :
    Agreement ds slots (server.complete i outcome submissions).2.1
      (server.complete i outcome submissions).2.2 := by
  by_cases hi : i ∈ server.held
  · obtain ⟨hdelivered, hsubmissions, hheld⟩ := Server.complete_of_held outcome submissions hi
    have hrecords := server.records_complete i outcome submissions
    refine ⟨?_, ?_, ?_, ?_, ?_, ?_, ?_⟩
    · simp [hrecords, hsubmissions, h.length]
    · rw [hrecords]
      exact h.faultless
    · rw [hrecords]
      exact h.vouched
    · rw [hheld]
      exact h.nodup.erase i
    · intro j hj
      rw [hheld] at hj
      obtain ⟨hne, hj⟩ := h.nodup.mem_erase_iff.mp hj
      obtain ⟨s, hs, hwaiting⟩ := h.held j hj
      refine ⟨s, ?_, hwaiting⟩
      rw [hsubmissions, List.getElem?_modify, hs]
      simp [Ne.symm hne]
    · intro n r s hr hs hready
      rw [hrecords] at hr
      rw [Server.isTrusted_complete]
      rw [hsubmissions, List.getElem?_modify] at hs
      obtain ⟨s', hs', rfl⟩ := Option.map_eq_some_iff.mp hs
      split at hready
      · rename_i hin
        subst hin
        -- An outcome that lies ready only now is the one that was told.
        rcases Submission.ready_of_complete hready with hready | ⟨haccepts, houtcome⟩
        · exact Or.inl (h.accepted i r s' hr hs' hready)
        · refine Or.inr ⟨?_, houtcome, r, hr, rfl⟩
          rw [hdelivered, hs']
          exact haccepts
      · exact Or.inl (h.accepted n r s' hr hs' hready)
    · intro k hk
      exact Server.isTrusted_complete.mpr (Or.inl (h.active k hk))
  · rw [Server.complete_of_not_held hi]
    exact h

section Loop

variable {γ : Type} {u : Trial.Setup γ} {l l' : Loop (Trial γ)}

theorem launch {trigger : Trigger} {bid : Bid}
    (h : Agreement ds l.slots l.submissions l.world.server)
    (haccounted : Accounted ds l.slots .inert l.submissions)
    (hlaunch : Loop.Launch u.plan.world trigger l bid l') :
    Agreement (.attempt bid :: ds) l'.slots l'.submissions l'.world.server := by
  have hserver : (u.plan.world.draw l.world).2.server = l.world.server := Trial.server_draw
  cases hlaunch with
  | undrawn hdraw =>
      rw [hdraw] at hserver
      rw [← hserver] at h
      exact h.cons _ h.active
  | failed hdraw =>
      rw [hdraw] at hserver
      rw [← hserver] at h
      exact h.cons _ h.active
  | crashed hdraw hpublish =>
      rw [hdraw] at hserver
      rw [← hserver, ← Trial.publish_crashed hpublish] at h
      exact h.cons _ h.active
  | @accepted k between world outcome hdraw hpublish =>
      rw [hdraw] at hserver
      rw [← hserver] at h
      obtain ⟨rfl, hpublished⟩ := Trial.publish_accepted hpublish
      show Agreement _ (l.slots.propose k) (l.submissions ++ [Submission.opened _]) world.server
      rw [hpublished]
      exact h.submit haccounted rfl rfl

theorem observe_ok (h : Agreement ds l.slots l.submissions l.world.server)
    (haccounted : Accounted ds l.slots l.tracked l.submissions)
    (hout : l.outcome? = some (.ok ())) :
    Agreement (.observe l.tracked (.ok ()) :: ds) l.slots.promote
      (l.tracked.amend (fun s => s.poll.2.release) l.submissions) l.world.server := by
  rcases Loop.outcome?_cases hout with ⟨e, -, he⟩ | ⟨n, s, htracked, hs, -, hready⟩
  · cases he
  · -- The key that waits is the one the server has in its record of the awaited publication.
    obtain ⟨-, -, k, hpending, hcarries⟩ := haccounted.latest n htracked
    obtain ⟨r, hr, hkey, -⟩ := h.exists_record haccounted hcarries
    apply (h.amend l.tracked Submission.awaited_settled).cons
    intro a ha
    simp only [Slots.promote, hpending, Option.some.injEq] at ha
    rw [← ha, ← hkey]
    exact h.accepted n r s hr hs hready

theorem start (h : Agreement ds l.slots l.submissions l.world.server)
    (haccounted : Accounted ds l.slots l.tracked l.submissions) (htracked : l.tracked = .inert)
    (now : Instant) :
    Agreement (.attempt (l.bid u.plan.world .bootstrap) :: ds) (l.start u.plan now).slots
      (l.start u.plan now).submissions (l.start u.plan now).world.server := by
  rw [htracked] at haccounted
  obtain ⟨launched, ticker, log, hlaunch, heq⟩ := Loop.start_spec u.plan now l
  have hlaunched := launch (l := l.starting u.plan) h haccounted hlaunch
  rw [heq]
  exact hlaunched

theorem react (h : Agreement ds l.slots l.submissions l.world.server)
    (haccounted : Accounted ds l.slots l.tracked l.submissions) (hposture : l.Posture)
    {s : Signals} {o : Occurrence} (hnext : l.next? s = some o) (now : Instant) :
    Agreement (l.deeds u.plan o ++ ds) (l.react u.plan now o).slots
      (l.react u.plan now o).submissions (l.react u.plan now o).world.server := by
  obtain ⟨-, hcause⟩ := Loop.next?_cases hnext
  cases o with
  | stop =>
      simp only [Loop.react, Loop.halt, Loop.cancel_eq]
      exact (h.amend l.tracked Submission.awaited_cancel).cons _ h.active
  | tick =>
      have hcancelled := (h.amend l.tracked Submission.awaited_cancel).cons (.cancel l.tracked)
        h.active
      exact launch (l := l.superseding now) hcancelled haccounted.cancel
        (Loop.rotate_spec u.plan now l)
  | retry =>
      -- A retry cancels nothing, but while a backoff lasts nothing is awaited.
      have hbackoff : l.backoff ≠ none := Option.isSome_iff_ne_none.mp hcause.1
      rw [hposture.tracked_of_backoff hbackoff] at haccounted
      exact launch (l := l.retrying) h haccounted (Loop.retry_spec u.plan l)
  | outcome o =>
      cases o with
      | ok _ =>
          simp only [Loop.react, Loop.settle_eq]
          exact h.observe_ok haccounted hcause
      | error e =>
          obtain ⟨hslots, -, hsubmissions, hworld⟩ := Loop.refuse_keeps u.plan now e l.settle
          simp only [Loop.react]
          rw [hslots, hsubmissions, hworld, Loop.settle_eq]
          exact (h.amend l.tracked Submission.awaited_settled).cons _ h.active

end Loop

end Agreement

namespace Trial.Setup

variable {γ : Type}

theorem agreement_turn (u : Setup γ) {c : Chronicle (Trial γ)} (hc : c.Sound)
    (h : Agreement c.deeds c.loop.slots c.loop.submissions c.loop.world.server) (t : Turn) :
    Agreement (u.turn c t).deeds (u.turn c t).loop.slots (u.turn c t).loop.submissions
      (u.turn c t).loop.world.server := by
  cases t with
  | serve s now =>
      simp only [turn]
      rcases Chronicle.serve_cases u.plan s now c with ⟨hstarted, heq⟩ | ⟨-, heq | ⟨o, hnext, heq⟩⟩
      · rw [heq]
        exact h.start hc.accounted (hc.tracked_of_unstarted hstarted) now
      · rw [heq]
        exact h
      · rw [heq]
        exact h.react hc.accounted hc.posture hnext now
  | complete i outcome => exact h.complete i outcome

/-- In a run of a trial the server and the loop always agree. -/
theorem agreement_run (u : Setup γ) (turns : List Turn) :
    Agreement (u.run turns).deeds (u.run turns).loop.slots (u.run turns).loop.submissions
      (u.run turns).loop.world.server :=
  run_induction (P := fun c => Agreement c.deeds c.loop.slots c.loop.submissions
      c.loop.world.server)
    (.new u.script u.otherwise) (fun _ t hc h => u.agreement_turn hc h t) turns

end Trial.Setup

end Keyring
