import Keyring.Submission

namespace Keyring

theorem getElem?_concat_cases {α : Type} {l : List α} {x y : α} {n : Nat}
    (h : (l ++ [x])[n]? = some y) : n < l.length ∧ l[n]? = some y ∨ n = l.length ∧ y = x := by
  by_cases hn : n = l.length
  · subst hn
    rw [List.getElem?_concat_length] at h
    exact Or.inr ⟨rfl, (Option.some.inj h).symm⟩
  · have hlt : n < l.length := by
      have := (List.getElem?_eq_some_iff.mp h).1
      simp at this
      omega
    rw [List.getElem?_append_left hlt] at h
    exact Or.inl ⟨hlt, h⟩

namespace Submission

/-- How a submission changes by what the reporting side does: it can neither cancel it nor take it
from the awaiting side, and an outcome that was taken does not come back. -/
structure Reported (s t : Submission) : Prop where
  cancelled : t.cancelled = s.cancelled
  held : t.held = s.held
  spent : s.report = .spent → t.report = .spent

theorem Reported.refl (s : Submission) : s.Reported s := ⟨rfl, rfl, id⟩

theorem reported_complete (outcome : Outcome) (s : Submission) :
    s.Reported (s.complete outcome).2 := by
  unfold complete
  split
  · rename_i haccepts
    refine ⟨rfl, rfl, ?_⟩
    intro hspent
    simp [accepts, hspent] at haccepts
  · refine ⟨rfl, rfl, ?_⟩
    intro hspent
    simp [hspent]

theorem reported_abandon (s : Submission) : s.Reported s.abandon :=
  reported_complete (.error .abandoned) s

theorem reported_opened (outcome : Option Outcome) : new.Reported (opened outcome) := by
  cases outcome with
  | none => exact .refl new
  | some outcome => exact reported_complete outcome new

theorem eq_of_report_opened {outcome : Option Outcome} {o : Outcome}
    (h : (opened outcome).report = .ready o) : outcome = some o := by
  cases outcome with
  | none => cases h
  | some outcome =>
      cases h
      rfl

theorem report_complete_ne_waiting (outcome : Outcome) (s : Submission) :
    (s.complete outcome).2.report ≠ .waiting := by
  unfold complete
  split
  · exact nofun
  · dsimp only
    split
    · exact nofun
    · rename_i hwaiting
      exact hwaiting

theorem ready_of_complete {s : Submission} {outcome o : Outcome}
    (h : (s.complete outcome).2.report = .ready o) :
    s.report = .ready o ∨ s.accepts = true ∧ outcome = o := by
  unfold complete at h
  split at h
  · rename_i haccepts
    cases h
    exact Or.inr ⟨haccepts, rfl⟩
  · by_cases hwaiting : s.report = .waiting
    · simp [hwaiting] at h
    · rw [if_neg hwaiting] at h
      exact Or.inl h

theorem of_outcome? {s : Submission} {o : Outcome} (h : s.outcome? = some o) :
    s.cancelled = false ∧ s.report = .ready o := by
  unfold outcome? at h
  split at h
  · rename_i outcome hcancelled hreport
    cases h
    exact ⟨hcancelled, hreport⟩
  · cases h

theorem poll_of_ready {s : Submission} {o : Outcome} (hcancelled : s.cancelled = false)
    (hreport : s.report = .ready o) : s.poll = (some o, { s with report := .spent }) := by
  simp [poll, outcome?, hcancelled, hreport]

/-- How a submission changes by what the awaiting side does: it can take an outcome that is there,
and else it leaves the report alone. -/
def Awaited (s t : Submission) : Prop :=
  t.report = s.report ∨ s.report ≠ .waiting ∧ t.report = .spent

theorem awaited_cancel (s : Submission) : s.Awaited s.cancel := Or.inl rfl

theorem awaited_settled (s : Submission) : s.Awaited s.poll.2.release := by
  cases hout : s.outcome? with
  | none => exact Or.inl (by simp [poll, hout, release])
  | some o =>
      refine Or.inr ⟨?_, by simp [poll, hout, release]⟩
      intro hwaiting
      simp [outcome?, hwaiting] at hout

end Submission

end Keyring
