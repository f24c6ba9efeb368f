import Keyring.Proofs.Trial.TrustChain

namespace Keyring

open Rotation

namespace Submission

/-- What there is to be told of a submission: once it is cancelled, nothing about its report. -/
def masked (s : Submission) : Submission := if s.cancelled then { s with report := .spent } else s

variable (s : Submission)

theorem masked_of_cancelled {s : Submission} (h : s.cancelled = true) :
    s.masked = ⟨true, s.held, .spent⟩ := by
  simp [masked, h]

theorem masked_of_live {s : Submission} (h : s.cancelled = false) : s.masked = s := by
  simp [masked, h]

@[simp]
theorem cancelled_masked : s.masked.cancelled = s.cancelled := by
  unfold masked
  split <;> rfl

@[simp]
theorem masked_masked : s.masked.masked = s.masked := by
  cases h : s.cancelled with
  | false => rw [masked_of_live h, masked_of_live h]
  | true =>
      rw [masked_of_cancelled h]
      rfl

@[simp]
theorem outcome?_masked : s.masked.outcome? = s.outcome? := by
  cases h : s.cancelled with
  | false => rw [masked_of_live h]
  | true => simp [masked_of_cancelled h, outcome?, h]

@[simp]
theorem accepts_masked : s.masked.accepts = s.accepts := by
  cases h : s.cancelled with
  | false => rw [masked_of_live h]
  | true => simp [masked_of_cancelled h, accepts, h]

theorem masked_complete_of_cancelled {s : Submission} (h : s.cancelled = true) (o : Outcome) :
    (s.complete o).2.masked = s.masked := by
  simp [complete, accepts, masked, h]

/-- It makes nothing of what was reported about a cancelled submission. -/
structure Discreet (f : Submission → Submission) : Prop where
  masked : ∀ s : Submission, (f s.masked).masked = (f s).masked
  cancelled : ∀ s : Submission, s.cancelled = true → (f s).cancelled = true

theorem discreet_cancel : Discreet cancel where
  masked s := by
    unfold Submission.masked
    split <;> simp_all [cancel]
  cancelled s h := rfl

theorem discreet_settle : Discreet fun s => s.poll.2.release where
  masked s := by
    cases h : s.cancelled with
    | false => rw [masked_of_live h]
    | true => simp [poll, outcome?, release, Submission.masked, h]
  cancelled s h := by simp [poll, outcome?, release, h]

theorem discreet_complete (o : Outcome) : Discreet fun s => (s.complete o).2 where
  masked s := by
    cases h : s.cancelled with
    | false => rw [masked_of_live h]
    | true =>
        rw [masked_complete_of_cancelled h, masked_complete_of_cancelled (by simpa using h),
          masked_masked]
  cancelled s h := by simp [complete, accepts, h]

end Submission

namespace Submissions

def masked (submissions : Submissions) : Submissions := submissions.map Submission.masked

def cancels (submissions : Submissions) (i : Nat) : Bool := submissions[i]?.any (·.cancelled)

variable {submissions : Submissions} {f : Submission → Submission}

@[simp]
theorem getElem?_masked (i : Nat) :
    submissions.masked[i]? = submissions[i]?.map Submission.masked := by
  simp [masked]

@[simp]
theorem length_masked : submissions.masked.length = submissions.length := List.length_map _

@[simp]
theorem masked_masked : submissions.masked.masked = submissions.masked := by
  simp [masked]

@[simp]
theorem cancels_masked (i : Nat) : submissions.masked.cancels i = submissions.cancels i := by
  cases h : submissions[i]? <;> simp [cancels, h]

theorem cancels_congr {submissions' : Submissions} (h : submissions.masked = submissions'.masked)
    (i : Nat) : submissions.cancels i = submissions'.cancels i := by
  rw [← cancels_masked, h, cancels_masked]

theorem masked_modify (hf : Submission.Discreet f) (n : Nat) :
    masked (submissions.masked.modify n f) = masked (submissions.modify n f) := by
  apply List.ext_getElem?
  intro i
  simp only [getElem?_masked, List.getElem?_modify]
  cases submissions[i]? with
  | none => rfl
  | some s => by_cases hi : n = i <;> simp [hi, hf.masked]

theorem masked_modify_of_cancelled {i : Nat} (h : submissions.cancels i = true) (o : Outcome) :
    masked (submissions.modify i fun s => (s.complete o).2) = submissions.masked := by
  obtain ⟨s, hs, hcancelled⟩ := (Option.any_eq_true _ _).mp h
  apply List.ext_getElem?
  intro j
  simp only [getElem?_masked, List.getElem?_modify]
  by_cases hj : i = j
  · subst hj
    simp [hs, Submission.masked_complete_of_cancelled hcancelled]
  · simp [hj]

theorem cancels_modify (hf : Submission.Discreet f) (n : Nat) {i : Nat}
    (h : submissions.cancels i = true) : cancels (submissions.modify n f) i = true := by
  simp only [cancels, List.getElem?_modify] at h ⊢
  cases hs : submissions[i]? with
  | none => simp [hs] at h
  | some s =>
      simp only [hs, Option.any_some] at h
      by_cases hi : n = i <;> simp [hi, hf.cancelled, h]

theorem masked_append_opened (outcome : Option Outcome) :
    masked (submissions ++ [.opened outcome]) = submissions.masked ++ [.opened outcome] := by
  have hlive := (Submission.reported_opened outcome).cancelled
  simp [masked, Submission.masked_of_live hlive]

theorem cancels_append_opened (outcome : Option Outcome) (i : Nat) :
    cancels (submissions ++ [.opened outcome]) i = submissions.cancels i := by
  have hlive := (Submission.reported_opened outcome).cancelled
  unfold cancels
  rcases Nat.lt_trichotomy i submissions.length with hlt | rfl | hgt
  · rw [List.getElem?_append_left hlt]
  · rw [List.getElem?_concat_length, List.getElem?_eq_none (Nat.le_refl _)]
    exact hlive
  · rw [List.getElem?_eq_none (by simp; omega), List.getElem?_eq_none (Nat.le_of_lt hgt)]

end Submissions

namespace Server

/-- What there is to be told of a server: nothing about the cancelled publications it holds. -/
def masked (submissions : Submissions) (s : Server) : Server :=
  { s with held := s.held.filter fun i => !submissions.cancels i }

variable {s : Server} {submissions submissions' : Submissions}

@[simp]
theorem count_masked (submissions : Submissions) (s : Server) :
    (s.masked submissions).count = s.count := rfl

theorem masked_congr (h : ∀ i, submissions.cancels i = submissions'.cancels i) (s : Server) :
    s.masked submissions = s.masked submissions' := by
  simp only [masked, h]

theorem masked_masked_of_le (h : ∀ i, submissions.cancels i = true → submissions'.cancels i = true)
    (s : Server) : (s.masked submissions).masked submissions' = s.masked submissions' := by
  simp only [masked, List.filter_filter, mk.injEq, and_true, true_and]
  apply List.filter_congr
  intro i _
  cases h' : submissions.cancels i <;> simp [h', h]

theorem masked_masked (submissions : Submissions) (s : Server) :
    (s.masked submissions).masked submissions.masked = s.masked submissions := by
  rw [masked_congr Submissions.cancels_masked]
  exact masked_masked_of_le (fun _ => id) s

theorem masked_modify {f : Submission → Submission} (hf : Submission.Discreet f) (n : Nat)
    (s : Server) : (s.masked submissions).masked (submissions.masked.modify n f) =
      s.masked (submissions.modify n f) := by
  rw [masked_congr (Submissions.cancels_congr (Submissions.masked_modify hf n))]
  exact masked_masked_of_le (fun i => Submissions.cancels_modify hf n) s

section Publish

variable [Scheme]

/-- Who publishes sees nothing of late answers: a cancelled publication is not live, whether the
server still holds it or not. -/
theorem inspect_masked (s : Server) (key : Jwk) (signer : SigningKey) (submissions : Submissions) :
    (s.masked submissions).inspect key signer submissions.masked =
      s.inspect key signer submissions := by
  have hlive : (s.masked submissions).heldWhere (!·.cancelled) submissions.masked =
      s.heldWhere (!·.cancelled) submissions := by
    simp only [heldWhere, masked, List.filter_filter]
    apply List.filter_congr
    intro i _
    cases hs : submissions[i]? <;> simp [Submissions.cancels, hs]
  simp only [inspect, hlive]
  rfl

theorem publish_masked (s : Server) (key : Jwk) (signer : SigningKey) (submissions : Submissions) :
    ((s.masked submissions).publish key signer submissions.masked).1 =
      (s.publish key signer submissions).1 ∧
    ((s.masked submissions).publish key signer submissions.masked).2.masked submissions.masked =
      (s.publish key signer submissions).2.masked submissions := by
  rw [masked_congr Submissions.cancels_masked]
  simp only [publish, inspect_masked]
  refine ⟨trivial, ?_⟩
  split
  · simp [masked, count, List.filter_append, List.filter_filter]
  · simp [masked, List.filter_filter]

end Publish

section Complete

variable {i : Nat} (o : Outcome)

/-- A late answer reaches nobody, and nothing tells that it was given. -/
theorem complete_of_cancelled (h : submissions.cancels i = true) :
    (s.complete i o submissions).1 = false ∧
      (s.complete i o submissions).2.1.masked = submissions.masked ∧
      (s.complete i o submissions).2.2.masked (s.complete i o submissions).2.1 =
        s.masked submissions := by
  by_cases hheld : s.held.contains i = true
  · have hmodify := Submissions.masked_modify_of_cancelled h o
    have hdelivered : submissions[i]?.any Submission.accepts = false := by
      obtain ⟨t, ht, hcancelled⟩ := (Option.any_eq_true _ _).mp h
      simp [ht, Submission.accepts, hcancelled]
    have hheld' : (s.held.erase i).filter (fun j => !submissions.cancels j) =
        s.held.filter fun j => !submissions.cancels j := by
      rw [← List.erase_filter]
      exact List.erase_of_not_mem (by simp [h])
    simp only [complete, hheld, if_true]
    refine ⟨hdelivered, hmodify, ?_⟩
    rw [masked_congr (Submissions.cancels_congr hmodify)]
    simp only [masked, hheld', hdelivered]
    cases s.records[i]? <;> rfl
  · simp only [complete, hheld]
    exact ⟨rfl, rfl, rfl⟩

theorem complete_masked (h : submissions.cancels i = false) :
    ((s.masked submissions).complete i o submissions.masked).2.1.masked =
      (s.complete i o submissions).2.1.masked ∧
    ((s.masked submissions).complete i o submissions.masked).2.2.masked
        ((s.masked submissions).complete i o submissions.masked).2.1 =
      (s.complete i o submissions).2.2.masked (s.complete i o submissions).2.1 := by
  have hcontains : (s.masked submissions).held.contains i = s.held.contains i := by
    simp [masked, h]
  by_cases hheld : s.held.contains i = true
  · have hdiscreet := Submission.discreet_complete o
    have hmodify : Submissions.masked (submissions.masked.modify i fun t => (t.complete o).2) =
        Submissions.masked (submissions.modify i fun t => (t.complete o).2) :=
      Submissions.masked_modify hdiscreet i
    have hdelivered : submissions.masked[i]?.any Submission.accepts =
        submissions[i]?.any Submission.accepts := by
      cases ht : submissions[i]? <;> simp [ht]
    simp only [complete, hcontains, hheld, if_true, hdelivered]
    refine ⟨hmodify, ?_⟩
    have herase : (s.masked submissions).held.erase i =
        (s.held.erase i).filter fun j => !submissions.cancels j := List.erase_filter
    rw [masked_congr (Submissions.cancels_congr hmodify), herase]
    exact masked_masked_of_le (fun j => Submissions.cancels_modify hdiscreet i)
      { s with held := s.held.erase i, accepted := _ }
  · simp only [complete, hcontains, hheld]
    exact ⟨Submissions.masked_masked, masked_masked submissions s⟩

end Complete

end Server

section

variable [Scheme] {γ : Type} {u : Trial.Setup γ}

namespace Loop

/-- What there is to be told of a loop in a trial, late answers left out. -/
def masked (l : Loop (Trial γ)) : Loop (Trial γ) := { l with
  submissions := l.submissions.masked
  world := { l.world with server := l.world.server.masked l.submissions } }

/-- What it makes of a loop does not depend on late answers, but for what is left out anyway. -/
def Blind (f : Loop (Trial γ) → Loop (Trial γ)) : Prop := ∀ l, (f l.masked).masked = (f l).masked

variable {f g : Loop (Trial γ) → Loop (Trial γ)}

theorem masked_masked (l : Loop (Trial γ)) : l.masked.masked = l.masked := by
  simp only [masked, Submissions.masked_masked, Server.masked_masked]

theorem Blind.comp (hg : Blind g) (hf : Blind f) : Blind fun l => g (f l) := by
  intro l
  calc (g (f l.masked)).masked
      = (g (f l.masked).masked).masked := (hg _).symm
    _ = (g (f l).masked).masked := by rw [hf l]
    _ = (g (f l)).masked := hg _

theorem Blind.congr (hf : Blind f) {l l' : Loop (Trial γ)} (h : l.masked = l'.masked) :
    (f l).masked = (f l').masked := by
  rw [← hf l, h, hf l']

theorem Blind.of_commutes (h : ∀ l, f l.masked = (f l).masked) : Blind f := by
  intro l
  rw [h, masked_masked]

theorem blind_amend {f : Submission → Submission} (hf : Submission.Discreet f) :
    Blind (γ := γ) fun l => { l with
      tracked := .inert, submissions := l.tracked.amend f l.submissions } := by
  intro l
  cases htracked : l.tracked with
  | submitted n =>
      simp only [masked, htracked, Tracked.amend, Submissions.masked_modify hf,
        Server.masked_modify hf]
  | _ =>
      simp only [masked, htracked, Tracked.amend, Submissions.masked_masked, Server.masked_masked]

theorem blind_settle : Blind (γ := γ) settle := by
  intro l
  rw [settle_eq, settle_eq]
  exact blind_amend Submission.discreet_settle l

theorem blind_cancel (reason : String) : Blind (γ := γ) (cancel reason) := by
  have hmeter : Blind fun l : Loop (Trial γ) => { l with
      metrics := if l.phase = .awaiting then l.metrics.cancel reason else l.metrics } :=
    .of_commutes fun _ => rfl
  intro l
  rw [cancel_eq, cancel_eq]
  exact hmeter.comp (blind_amend Submission.discreet_cancel) l

theorem outcome?_masked (l : Loop (Trial γ)) : l.masked.outcome? = l.outcome? := by
  unfold outcome?
  cases htracked : l.tracked with
  | submitted n =>
      simp only [masked, htracked, Submissions.getElem?_masked]
      cases l.submissions[n]? <;> simp
  | inert => simp [masked, htracked]
  | failed e => simp [masked, htracked]

theorem blind_launch (trigger : Trigger) : Blind (launch u.plan.world trigger) := by
  intro l
  rcases hdraw : u.draw l.world.generator with ⟨draw, generator⟩
  cases draw with
  | crashed text =>
      simp only [launch, Attempt.make, Trial.Setup.plan, Trial.world, masked, hdraw, meter,
        Submissions.masked_masked, Server.masked_masked]
  | failed e =>
      simp only [launch, Attempt.make, Trial.Setup.plan, Trial.world, masked, hdraw, meter,
        Submissions.masked_masked, Server.masked_masked, report_eq]
  | key k =>
      obtain ⟨houtcome, hpublish⟩ :=
        l.world.server.publish_masked k.jwk (l.slots.active.getD k) l.submissions
      by_cases hcrashing : u.crashing.contains l.world.server.count = true
      · simp only [launch, Attempt.make, Trial.Setup.plan, Trial.world, masked, hdraw, meter,
          Trial.publish, Server.count_masked, hcrashing, if_true]
        simp [Server.masked_masked]
      · simp only [launch, Attempt.make, Trial.Setup.plan, Trial.world, masked, hdraw, meter,
          Trial.publish, Server.count_masked, hcrashing, report_eq]
        simp [houtcome, Submissions.masked_append_opened, hpublish,
          Server.masked_congr (Submissions.cancels_append_opened _)]

theorem masked_schedule (now : Instant) (s : Settings) (l : Loop (Trial γ)) :
    (l.schedule now s).masked = l.masked.schedule now s := by
  unfold schedule
  split
  · rfl
  · split <;> rfl
  · rfl

theorem blind_confirm (p : Plan (Trial γ)) (now : Instant) : Blind (confirm p now) :=
  .of_commutes fun _ => rfl

theorem masked_escalate (w : World (Trial γ)) (e : PublishError) (l : Loop (Trial γ)) :
    (l.escalate w e).masked = l.masked.escalate w e := by
  unfold escalate
  cases w.escalate e <;> rfl

theorem blind_refuse (p : Plan (Trial γ)) (now : Instant) (e : PublishError) :
    Blind (refuse p now e) := by
  apply Blind.of_commutes
  intro l
  simp only [refuse]
  rw [apply_ite masked, masked_escalate]
  rfl

theorem blind_start (now : Instant) : Blind (start u.plan now) := by
  have hreport : Blind fun l : Loop (Trial γ) =>
      (l.report .bootstrapping).note (Notice.bootstrapping u.plan.settings) :=
    .of_commutes fun _ => rfl
  have hschedule : Blind fun l : Loop (Trial γ) =>
      if l.hasEnded then l else l.schedule now u.plan.settings := by
    apply Blind.of_commutes
    intro l
    rw [apply_ite masked, masked_schedule]
    rfl
  exact hschedule.comp ((blind_launch .bootstrap).comp hreport)

theorem blind_react (now : Instant) (o : Occurrence) : Blind (react u.plan now o) := by
  cases o with
  | stop =>
      have hnote : Blind (γ := γ) (note Notice.stopping) := .of_commutes fun _ => rfl
      have hfinish : Blind (γ := γ) (finish .stopped) := .of_commutes fun _ => rfl
      exact hfinish.comp ((blind_cancel "shutdown").comp hnote)
  | tick =>
      have hnote : Blind fun l : Loop (Trial γ) =>
          ({ l with ticker := l.ticker.map (Ticker.advance now) }).note
            (Notice.rotating l.slots.activeId l.slots.pendingId) := .of_commutes fun _ => rfl
      have hbackoff : Blind fun l : Loop (Trial γ) => { l with backoff := none } :=
        .of_commutes fun _ => rfl
      exact (blind_launch .scheduled).comp (hbackoff.comp ((blind_cancel "superseded").comp hnote))
  | retry =>
      have hretrying : Blind (γ := γ) retrying := .of_commutes fun _ => rfl
      exact (blind_launch .retry).comp hretrying
  | outcome o =>
      cases o with
      | ok _ => exact (blind_confirm u.plan now).comp blind_settle
      | error e => exact (blind_refuse u.plan now e).comp blind_settle

theorem next?_masked (s : Signals) (l : Loop (Trial γ)) : l.masked.next? s = l.next? s := by
  unfold next?
  rw [outcome?_masked]
  rfl

theorem complete_of_cancelled {l : Loop (Trial γ)} {i : Nat}
    (h : l.submissions.cancels i = true) (o : Outcome) :
    (l.complete i o).1 = false ∧ (l.complete i o).2.masked = l.masked := by
  obtain ⟨hdelivered, hsubmissions, hserver⟩ :=
    Server.complete_of_cancelled (s := l.world.server) o h
  refine ⟨hdelivered, ?_⟩
  simp only [complete, masked, hsubmissions, hserver]

theorem blind_complete (i : Nat) (o : Outcome) :
    Blind fun l : Loop (Trial γ) => (l.complete i o).2 := by
  intro l
  cases h : l.submissions.cancels i with
  | false =>
      obtain ⟨hsubmissions, hserver⟩ := Server.complete_masked (s := l.world.server) o h
      simp only [complete, masked, hsubmissions, hserver]
  | true =>
      have hmasked : l.masked.submissions.cancels i = true := by
        rw [← h]
        exact Submissions.cancels_masked i
      rw [(complete_of_cancelled h o).2, (complete_of_cancelled hmasked o).2, masked_masked]

end Loop

namespace Trial.Setup

theorem masked_turn {c d : Chronicle (Trial γ)} (h : c.loop.masked = d.loop.masked) (t : Turn) :
    (u.turn c t).loop.masked = (u.turn d t).loop.masked := by
  cases t with
  | complete i o => exact (Loop.blind_complete i o).congr h
  | serve s now =>
      have hstarted : c.loop.started = d.loop.started :=
        (congrArg Loop.started h : c.loop.masked.started = d.loop.masked.started)
      have hnext : c.loop.next? s = d.loop.next? s := by
        rw [← Loop.next?_masked, h, Loop.next?_masked]
      simp only [turn, Chronicle.serve, hstarted, hnext]
      split
      · split
        · exact (Loop.blind_react now _).congr h
        · exact h
      · exact (Loop.blind_start now).congr h

/-- Two courses of a trial that differ in nothing but late answers: outcomes that are told of
publications the loop has cancelled before. -/
inductive Parallel (u : Setup γ) : List Turn → List Turn → Prop
  | nil : Parallel u [] []
  | both {first second : List Turn} (h : Parallel u first second) (t : Turn) :
      Parallel u (first ++ [t]) (second ++ [t])
  | lateFirst {first second : List Turn} (h : Parallel u first second) {i : Nat}
      (hcancel : .cancel (.submitted i) ∈ (u.run first).deeds) (o : Outcome) :
      Parallel u (first ++ [.complete i o]) second
  | lateSecond {first second : List Turn} (h : Parallel u first second) {i : Nat}
      (hcancel : .cancel (.submitted i) ∈ (u.run second).deeds) (o : Outcome) :
      Parallel u first (second ++ [.complete i o])

theorem run_concat (u : Setup γ) (turns : List Turn) (t : Turn) :
    u.run (turns ++ [t]) = u.turn (u.run turns) t := List.foldl_append

theorem cancels_of_cancel (u : Setup γ) (turns : List Turn) {i : Nat}
    (h : .cancel (.submitted i) ∈ (u.run turns).deeds) :
    (u.run turns).loop.submissions.cancels i = true := by
  obtain ⟨s, hs, hmem, hstory⟩ := (u.sound_run turns).accounted.story_of_mem h rfl
  simp [Submissions.cancels, hs, hstory.cancelled_of_cancel hmem]

theorem Parallel.masked {first second : List Turn} (h : u.Parallel first second) :
    (u.run first).loop.masked = (u.run second).loop.masked := by
  induction h with
  | nil => rfl
  | both _ t ih =>
      rw [run_concat, run_concat]
      exact masked_turn ih t
  | @lateFirst first second _ i hcancel o ih =>
      rw [run_concat]
      exact (Loop.complete_of_cancelled (u.cancels_of_cancel first hcancel) o).2.trans ih
  | @lateSecond first second _ i hcancel o ih =>
      rw [run_concat]
      exact ih.trans (Loop.complete_of_cancelled (u.cancels_of_cancel second hcancel) o).2.symm

/-- Late answers have no influence: what is told of a cancelled publication reaches nobody, and
nothing depends on it that the loop does or tells, or that the server records or trusts. -/
theorem late_answers (u : Setup γ) :
    (∀ turns i o, .cancel (.submitted i) ∈ (u.run turns).deeds →
      ((u.run turns).loop.complete i o).1 = false) ∧
    ∀ first second, u.Parallel first second →
      let l := (u.run first).loop
      let l' := (u.run second).loop
      l.world.server.records = l'.world.server.records ∧ l.statuses = l'.statuses ∧
        l.slots = l'.slots ∧ l.metrics = l'.metrics ∧ l.escalated = l'.escalated ∧
        l.world.server.accepted = l'.world.server.accepted := by
  refine ⟨?_, ?_⟩
  · intro turns i o hcancel
    exact (Loop.complete_of_cancelled (u.cancels_of_cancel turns hcancel) o).1
  · intro first second h l l'
    have hmasked : l.masked = l'.masked := h.masked
    have hserver : l.masked.world.server = l'.masked.world.server := by rw [hmasked]
    exact ⟨congrArg (·.records) hserver, congrArg (·.statuses) hmasked,
      congrArg (·.slots) hmasked, congrArg (·.metrics) hmasked, congrArg (·.escalated) hmasked,
      congrArg (·.accepted) hserver⟩

end Trial.Setup

end

namespace Trial.Setup

/-- The server is told that a publication has succeeded, after a tick has superseded it. -/
theorem late_answers_superseded :
    letI : Scheme := .plain
    let turns : List Turn := [.serve ⟨false, false, false⟩ 0, .serve ⟨false, true, false⟩ 1]
    let next : Turn := .serve ⟨false, false, false⟩ 1
    let late := heldFirst.run (turns ++ [.complete 0 (.ok ())] ++ [next])
    let plain := heldFirst.run (turns ++ [next])
    ((heldFirst.run turns).loop.complete 0 (.ok ())).1 = false ∧
      late.loop.world.server.held ≠ plain.loop.world.server.held ∧ plain.loop.completed = 1 ∧
      late.loop.slots = plain.loop.slots ∧
      late.loop.world.server.accepted = plain.loop.world.server.accepted := by
  let _ : Scheme := .plain
  have hcancel : .cancel (.submitted 0) ∈ (heldFirst.run
      [.serve ⟨false, false, false⟩ 0, .serve ⟨false, true, false⟩ 1]).deeds :=
    List.mem_cons_of_mem _ List.mem_cons_self
  have hshared := ((Parallel.nil (u := heldFirst)).both (.serve ⟨false, false, false⟩ 0)).both
    (.serve ⟨false, true, false⟩ 1)
  have hparallel := (hshared.lateFirst hcancel (.ok ())).both (.serve ⟨false, false, false⟩ 1)
  obtain ⟨hreturned, hsame⟩ := late_answers heldFirst
  obtain ⟨-, -, hslots, -, -, haccepted⟩ := hsame _ _ hparallel
  exact ⟨hreturned _ 0 (.ok ()) hcancel, by decide +kernel, by decide +kernel, hslots, haccepted⟩

end Trial.Setup

end Keyring
