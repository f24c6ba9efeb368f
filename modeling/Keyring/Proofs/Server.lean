import Keyring.Proofs.Submission
import Keyring.Server

namespace Keyring.Server

variable {s : Server} {submissions : Submissions} {i : Nat} {outcome : Outcome} {id : String}

theorem isTrusted_iff : s.isTrusted id = true ↔ id ∈ s.accepted := by
  simp [isTrusted]

theorem heldWhere_eq_nil {p : Submission → Bool}
    (h : ∀ i ∈ s.held, ∀ t, submissions[i]? = some t → p t = false) :
    s.heldWhere p submissions = [] := by
  unfold heldWhere
  rw [List.filter_eq_nil_iff]
  intro i hi
  cases ht : submissions[i]? with
  | none => simp
  | some t => simp [h i hi t ht]

theorem mem_heldWhere {p : Submission → Bool} : i ∈ s.heldWhere p submissions ↔
    i ∈ s.held ∧ ∃ t, submissions[i]? = some t ∧ p t = true := by
  simp [heldWhere, Option.any_eq_true]

theorem Verdict.eq_succeed_of_outcome? {v : Verdict} (h : v.outcome? = some (.ok ())) :
    v = .succeed := by
  cases v with
  | succeed => rfl
  | fail e => cases h
  | hold => cases h
  | abandon => cases h

section Publish

variable [Scheme] {key : Jwk} {signer : SigningKey}

theorem records_publish : (s.publish key signer submissions).2.records =
    s.records ++ [s.inspect key signer submissions] := rfl

theorem mem_held_publish : i ∈ (s.publish key signer submissions).2.held ↔
    i ∈ s.held ∨ s.verdict = .hold ∧ i = s.count := by
  simp only [publish, inspect]
  by_cases hverdict : s.verdict = .hold
  · simp [hverdict]
  · simp [hverdict]

theorem nodup_held_publish (h : s.held.Nodup) (hcount : s.count ∉ s.held) :
    (s.publish key signer submissions).2.held.Nodup := by
  by_cases hverdict : s.verdict = .hold
  · simp only [publish, inspect, hverdict, if_true]
    apply List.nodup_append.mpr
    refine ⟨h, by simp, ?_⟩
    rintro i hi j hj rfl
    rw [List.mem_singleton.mp hj] at hi
    exact hcount hi
  · simp only [publish, inspect, hverdict, if_false]
    exact h

theorem ascending_held_publish (h : s.held.Pairwise (· < ·)) (hcount : ∀ i ∈ s.held, i < s.count) :
    (s.publish key signer submissions).2.held.Pairwise (· < ·) := by
  by_cases hverdict : s.verdict = .hold
  · simp only [publish, inspect, hverdict, if_true]
    refine List.pairwise_append.mpr ⟨h, List.pairwise_singleton _ _, fun i hi j hj => ?_⟩
    rw [List.mem_singleton.mp hj]
    exact hcount i hi
  · simp only [publish, inspect, hverdict, if_false]
    exact h

/-- A publication makes its key accepted if it is answered with a success at once, and takes no key
from those that are accepted. -/
theorem isTrusted_publish : (s.publish key signer submissions).2.isTrusted id = true ↔
    s.isTrusted id = true ∨ s.verdict = .succeed ∧ id = key.kid := by
  simp only [isTrusted_iff, publish, inspect]
  by_cases hverdict : s.verdict = .succeed
  · simp [hverdict, or_comm]
  · simp [hverdict]

end Publish

theorem complete_of_held (outcome : Outcome) (submissions : Submissions) (h : i ∈ s.held) :
    (s.complete i outcome submissions).1 = submissions[i]?.any Submission.accepts ∧
      (s.complete i outcome submissions).2.1 =
        submissions.modify i (fun t => (t.complete outcome).2) ∧
      (s.complete i outcome submissions).2.2.held = s.held.erase i := by
  simp [complete, h]

theorem complete_of_not_held (h : i ∉ s.held) :
    s.complete i outcome submissions = (false, submissions, s) := by
  simp [complete, h]

theorem records_complete (i : Nat) (outcome : Outcome) (submissions : Submissions) (s : Server) :
    (s.complete i outcome submissions).2.2.records = s.records := by
  by_cases h : i ∈ s.held
  · simp [complete, h]
  · rw [complete_of_not_held h]

theorem complete_keeps (i : Nat) (outcome : Outcome) (submissions : Submissions) (s : Server) :
    (s.complete i outcome submissions).2.2.script = s.script ∧
      (s.complete i outcome submissions).2.2.otherwise = s.otherwise ∧
      (s.complete i outcome submissions).2.2.published = s.published := by
  by_cases h : i ∈ s.held
  · simp [complete, h]
  · simp [complete, h]

/-- The key of a publication is accepted if a success was told that reached someone. -/
theorem isTrusted_complete : (s.complete i outcome submissions).2.2.isTrusted id = true ↔
    s.isTrusted id = true ∨ (s.complete i outcome submissions).1 = true ∧ outcome = .ok () ∧
      ∃ r, s.records[i]? = some r ∧ id = r.key := by
  by_cases h : i ∈ s.held
  · simp only [isTrusted_iff, complete, List.contains_iff_mem, h, if_true]
    cases hr : s.records[i]? with
    | none => simp
    | some r =>
        by_cases hdelivered : submissions[i]?.any Submission.accepts = true ∧ outcome = .ok ()
        · simp [hdelivered, or_comm]
        · simp only [Bool.and_eq_true, decide_eq_true_eq, hdelivered, if_false]
          simp_all
  · simp [complete_of_not_held h]

end Keyring.Server
