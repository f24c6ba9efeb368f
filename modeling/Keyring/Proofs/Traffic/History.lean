import Keyring.Traffic
import Mathlib.Data.List.Induction

namespace Keyring

theorem concat_eq_append_cons_iff {α : Type} {l before after : List α} {a c : α} :
    l ++ [a] = before ++ c :: after ↔
      (∃ rest, after = rest ++ [a] ∧ l = before ++ c :: rest) ∨
        after = [] ∧ l = before ∧ a = c := by
  constructor
  · intro hsplit
    rcases List.eq_nil_or_concat after with rfl | ⟨rest, d, rfl⟩
    · obtain ⟨hbefore, hc⟩ := List.append_inj' hsplit rfl
      exact Or.inr ⟨rfl, hbefore, (List.cons.inj hc).1⟩
    · rw [List.concat_eq_append, ← List.cons_append, ← List.append_assoc] at hsplit
      obtain ⟨hl, hd⟩ := List.append_inj' hsplit rfl
      rw [(List.cons.inj hd).1]
      exact Or.inl ⟨rest, List.concat_eq_append, hl⟩
  · rintro (⟨rest, rfl, rfl⟩ | ⟨rfl, rfl, rfl⟩)
    · simp
    · rfl

variable [Scheme]

/-- What the server of a builder answers to the publication with the number `i`. -/
def Server.Builder.verdict (b : Server.Builder) (i : Nat) : Server.Verdict :=
  b.script[i]?.getD b.beyond

namespace Traffic

def Act.publishes : Act → Bool
  | .publish _ _ => true
  | _ => false

def publications (acts : List Act) : Nat := acts.countP Act.publishes

/-- What was done after the publication with the number `i`. Only then it can be referred to. -/
def since : Nat → List Act → List Act
  | _, [] => []
  | 0, a :: acts => if a.publishes then acts else since 0 acts
  | i + 1, a :: acts => if a.publishes then since i acts else since (i + 1) acts

def Completed (i : Nat) (acts : List Act) : Prop := ∃ o, .complete i o ∈ since i acts

def Dropped (i : Nat) (acts : List Act) : Prop := .drop i ∈ since i acts

/-- It was cancelled, before it was dropped. -/
def Cancelled (i : Nat) (acts : List Act) : Prop :=
  ∃ before after, since i acts = before ++ .cancel i :: after ∧ .drop i ∉ before

/-- The server has it and was not told what comes of it. -/
def Held (b : Server.Builder) (i : Nat) (acts : List Act) : Prop :=
  i < publications acts ∧ b.verdict i = .hold ∧ ¬ Completed i acts

section Concat

variable {b : Server.Builder} {i : Nat} {acts : List Act} {a : Act}

theorem publications_concat :
    publications (acts ++ [a]) = publications acts + if a.publishes then 1 else 0 := by
  simp [publications, List.countP_singleton]

theorem publications_cons :
    publications (a :: acts) = publications acts + if a.publishes then 1 else 0 :=
  List.countP_cons

theorem since_concat : since i (acts ++ [a]) =
    since i acts ++ if i < publications acts then [a] else [] := by
  induction acts generalizing i with
  | nil => cases i <;> simp [since, publications]
  | cons c acts ih =>
      cases i with
      | zero => by_cases hc : c.publishes = true <;> simp [since, publications_cons, hc, ih]
      | succ i => by_cases hc : c.publishes = true <;> simp [since, publications_cons, hc, ih]

theorem since_eq_nil (h : publications acts ≤ i) : since i acts = [] := by
  induction acts generalizing i with
  | nil => cases i <;> rfl
  | cons c acts ih =>
      rw [publications_cons] at h
      by_cases hc : c.publishes = true
      · rw [if_pos hc] at h
        cases i with
        | zero => omega
        | succ i =>
            rw [since, if_pos hc]
            exact ih (Nat.le_of_succ_le_succ h)
      · rw [if_neg hc] at h
        cases i with
        | zero =>
            rw [since, if_neg hc]
            exact ih h
        | succ i =>
            rw [since, if_neg hc]
            exact ih h

theorem completed_concat : Completed i (acts ++ [a]) ↔
    Completed i acts ∨ i < publications acts ∧ ∃ o, a = .complete i o := by
  unfold Completed
  rw [since_concat]
  by_cases hi : i < publications acts
  · simp [hi, exists_or, eq_comm]
  · simp [hi]

theorem completed_append (h : Completed i acts) (later : List Act) :
    Completed i (acts ++ later) := by
  induction later using List.reverseRecOn with
  | nil => rwa [List.append_nil]
  | append_singleton later a ih =>
      rw [← List.append_assoc]
      exact completed_concat.mpr (Or.inl ih)

theorem dropped_concat : Dropped i (acts ++ [a]) ↔
    Dropped i acts ∨ i < publications acts ∧ a = .drop i := by
  unfold Dropped
  rw [since_concat]
  by_cases hi : i < publications acts
  · simp [hi, eq_comm]
  · simp [hi]

theorem cancelled_concat : Cancelled i (acts ++ [a]) ↔
    Cancelled i acts ∨ i < publications acts ∧ ¬ Dropped i acts ∧ a = .cancel i := by
  unfold Cancelled Dropped
  rw [since_concat]
  by_cases hi : i < publications acts
  · rw [if_pos hi]
    simp only [hi, true_and, concat_eq_append_cons_iff]
    constructor
    · rintro ⟨before, after, ⟨rest, -, hsplit⟩ | ⟨-, rfl, ha⟩, hdrop⟩
      · exact Or.inl ⟨before, rest, hsplit, hdrop⟩
      · exact Or.inr ⟨hdrop, ha⟩
    · rintro (⟨before, rest, hsplit, hdrop⟩ | ⟨hdrop, ha⟩)
      · exact ⟨before, rest ++ [a], Or.inl ⟨rest, rfl, hsplit⟩, hdrop⟩
      · exact ⟨since i acts, [], Or.inr ⟨rfl, rfl, ha⟩, hdrop⟩
  · rw [if_neg hi, List.append_nil]
    simp only [hi, false_and, or_false]

theorem publications_concat_of_not (h : a.publishes = false) :
    publications (acts ++ [a]) = publications acts := by
  simp [publications_concat, h]

theorem held_of_concat (hi : i < publications acts) (h : Held b i (acts ++ [a])) :
    Held b i acts :=
  ⟨hi, h.2.1, fun hcompleted => h.2.2 (completed_concat.mpr (Or.inl hcompleted))⟩

theorem held_concat_of_not (hpublish : a.publishes = false) (hcomplete : ∀ o, a ≠ .complete i o) :
    Held b i (acts ++ [a]) ↔ Held b i acts := by
  simp [Held, publications_concat_of_not hpublish, completed_concat, hcomplete]

theorem not_completed (h : publications acts ≤ i) : ¬ Completed i acts := by
  simp [Completed, since_eq_nil h]

theorem not_dropped (h : publications acts ≤ i) : ¬ Dropped i acts := by
  simp [Dropped, since_eq_nil h]

theorem not_cancelled (h : publications acts ≤ i) : ¬ Cancelled i acts := by
  simp [Cancelled, since_eq_nil h]

theorem held_concat_publish {key : Jwk} {signer : SigningKey} :
    Held b i (acts ++ [.publish key signer]) ↔
      Held b i acts ∨ b.verdict i = .hold ∧ i = publications acts := by
  simp only [Held, publications_concat, Act.publishes, if_true, completed_concat, reduceCtorEq,
    exists_false, and_false, or_false, Nat.lt_succ_iff_lt_or_eq]
  constructor
  · rintro ⟨hlt | heq, hverdict, hcompleted⟩
    · exact Or.inl ⟨hlt, hverdict, hcompleted⟩
    · exact Or.inr ⟨hverdict, heq⟩
  · rintro (⟨hlt, hverdict, hcompleted⟩ | ⟨hverdict, heq⟩)
    · exact ⟨Or.inl hlt, hverdict, hcompleted⟩
    · exact ⟨Or.inr heq, hverdict, not_completed (Nat.le_of_eq heq.symm)⟩

theorem held_concat_complete {j : Nat} {o : Outcome} :
    Held b i (acts ++ [.complete j o]) ↔ Held b i acts ∧ i ≠ j := by
  simp only [Held, publications_concat_of_not (show (Act.complete j o).publishes = false from rfl),
    completed_concat, Act.complete.injEq]
  constructor
  · rintro ⟨hlt, hverdict, hnot⟩
    refine ⟨⟨hlt, hverdict, fun hcompleted => hnot (Or.inl hcompleted)⟩, ?_⟩
    rintro rfl
    exact hnot (Or.inr ⟨hlt, o, rfl, rfl⟩)
  · rintro ⟨⟨hlt, hverdict, hnot⟩, hne⟩
    refine ⟨hlt, hverdict, ?_⟩
    rintro (hcompleted | ⟨-, _, rfl, -⟩)
    · exact hnot hcompleted
    · exact hne rfl

end Concat

end Traffic

end Keyring
