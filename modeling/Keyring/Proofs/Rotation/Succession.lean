import Keyring.Proofs.Rotation.Run

namespace Keyring

open Rotation

variable [Scheme] {ω : Type}

namespace Deeds

/-- A key server has taken the publication, which has neither given its outcome nor been
cancelled. -/
def Live (ds : Deeds) (n : Nat) : Prop :=
  (∃ bid, .attempt bid ∈ ds ∧ bid.operation = some (.submitted n)) ∧ ¬ ds.Finished n

def AllFinished (ds : Deeds) (submissions : Submissions) : Prop :=
  ∀ n bid, .attempt bid ∈ ds → bid.operation = some (.submitted n) →
    ds.Finished n ∧ ∃ s, submissions[n]? = some s ∧ (s.cancelled = true ∨ s.held = false)

/-- At each attempt, all publications taken before had come to their end, as the key server could
see. -/
def Orderly (ds : Deeds) : Prop :=
  ∀ (later : Deeds) (bid : Bid) (before : Deeds), ds = later ++ .attempt bid :: before →
    before.AllFinished bid.earlier

theorem orderly_nil : Orderly [] := by
  intro later bid before h
  simp at h

theorem Orderly.cons {ds : Deeds} (h : ds.Orderly) {d : Deed}
    (hd : ∀ bid, d = .attempt bid → ds.AllFinished bid.earlier) : Orderly (d :: ds) := by
  intro later bid before heq
  rcases List.cons_eq_append_iff.mp heq with ⟨-, hbefore⟩ | ⟨rest, -, hrest⟩
  · obtain ⟨hbid, rfl⟩ := List.cons.inj hbefore
    exact hd bid hbid.symm
  · exact h rest bid before hrest

end Deeds

namespace Accounted

variable {ds : Deeds} {slots : Slots} {tracked : Tracked} {submissions : Submissions}

theorem finished_or_tracked (h : Accounted ds slots tracked submissions) {n : Nat} {bid : Bid}
    (hbid : .attempt bid ∈ ds) (hoperation : bid.operation = some (.submitted n)) :
    (ds.Finished n ∧ ∃ s, submissions[n]? = some s ∧ (s.cancelled = true ∨ s.held = false)) ∨
      tracked = .submitted n := by
  obtain ⟨s, hs, -, hstory⟩ := h.story_of_mem hbid (Deed.number?_attempt hoperation)
  rcases hstory.finished_or_live with ⟨hfinished, hflags⟩ | ⟨hcancelled, hheld⟩
  · refine Or.inl ⟨?_, s, hs, hflags⟩
    rcases hfinished with hcancel | ⟨o, hobserve⟩
    · exact Or.inl (Deeds.mem_about.mp hcancel).1
    · exact Or.inr ⟨o, (Deeds.mem_about.mp hobserve).1⟩
  · exact Or.inr (h.live n s hs hcancelled hheld)

theorem allFinished (h : Accounted ds slots .inert submissions) : ds.AllFinished submissions := by
  intro n bid hbid hoperation
  rcases h.finished_or_tracked hbid hoperation with hfinished | htracked
  · exact hfinished
  · cases htracked

theorem exists_bid (h : Accounted ds slots tracked submissions) {n : Nat} {s : Submission}
    (hs : submissions[n]? = some s) :
    ∃ bid, .attempt bid ∈ ds ∧ bid.operation = some (.submitted n) := by
  obtain ⟨bid, hbid, hoperation⟩ := (h.story n s hs).exists_bid
  exact ⟨bid, (Deeds.mem_about.mp hbid).1, hoperation⟩

theorem live_of_flags (h : Accounted ds slots tracked submissions) {n : Nat} {s : Submission}
    (hs : submissions[n]? = some s) (hcancelled : s.cancelled = false) (hheld : s.held = true) :
    ds.Live n := by
  refine ⟨h.exists_bid hs, ?_⟩
  intro hfinished
  apply (h.story n s hs).not_finished hcancelled hheld
  rcases hfinished with hcancel | ⟨o, hobserve⟩
  · exact Or.inl (Deeds.mem_about.mpr ⟨hcancel, rfl⟩)
  · exact Or.inr ⟨o, Deeds.mem_about.mpr ⟨hobserve, rfl⟩⟩

theorem lastBid_of_live (h : Accounted ds slots tracked submissions) {n : Nat}
    (hlive : ds.Live n) : ∃ bid, ds.lastBid = some bid ∧ bid.operation = some (.submitted n) := by
  obtain ⟨⟨bid, hbid, hoperation⟩, hfinished⟩ := hlive
  rcases h.finished_or_tracked hbid hoperation with hdone | htracked
  · exact absurd hdone.1 hfinished
  · rw [← htracked]
    exact h.lastBid (by simp [htracked])

end Accounted

namespace Chronicle

theorem orderly_serve (p : Plan ω) (s : Signals) (now : Instant) {c : Chronicle ω} (hc : c.Sound)
    (h : c.deeds.Orderly) : (c.serve p s now).deeds.Orderly := by
  have haccounted := hc.accounted
  rcases serve_cases p s now c with ⟨hstarted, heq⟩ | ⟨-, heq | ⟨o, hnext, heq⟩⟩
  · rw [hc.tracked_of_unstarted hstarted] at haccounted
    rw [heq]
    apply h.cons
    rintro bid hbid
    cases hbid
    exact haccounted.allFinished
  · rw [heq]
    exact h
  · rw [heq]
    obtain ⟨-, hcause⟩ := Loop.next?_cases hnext
    cases o with
    | stop => exact h.cons fun bid hbid => by cases hbid
    | tick =>
        -- The cancellation comes first, so the attempt finds nothing awaited.
        refine Deeds.Orderly.cons (h.cons fun bid hbid => by cases hbid) ?_
        rintro bid hbid
        cases hbid
        simp only [Loop.bid, Loop.cancel_eq]
        exact haccounted.cancel.allFinished
    | retry =>
        have hbackoff : c.loop.backoff ≠ none := Option.isSome_iff_ne_none.mp hcause.1
        rw [hc.posture.tracked_of_backoff hbackoff] at haccounted
        apply h.cons
        rintro bid hbid
        cases hbid
        exact haccounted.allFinished
    | outcome o => exact h.cons fun bid hbid => by cases hbid

/-- In a run, each attempt is made when all publications before it have come to their end. -/
theorem orderly_run (p : Plan ω) (world : ω) (turns : List (Loop.Turn ω)) :
    (run p world turns).deeds.Orderly := by
  have h : (run p world turns).Sound ∧ (run p world turns).deeds.Orderly := by
    apply run_induction (P := fun c => c.Sound ∧ c.deeds.Orderly)
    · exact ⟨sound_new world, Deeds.orderly_nil⟩
    · rintro c t ⟨hsound, horderly⟩
      refine ⟨sound_turn p t hsound, ?_⟩
      cases t with
      | serve s now => exact orderly_serve p s now hsound horderly
      | report i outcome => exact horderly
      | abandon i => exact horderly
      | elapse world => exact horderly
  exact h.2

end Chronicle

end Keyring
