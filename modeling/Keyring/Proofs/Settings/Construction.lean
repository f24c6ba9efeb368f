import Keyring.Proofs.Settings.Environment
import Keyring.Rotation.Timer
import Mathlib.Data.List.Induction

namespace Keyring.Settings

open Rotation

/-- What settings are adjusted by once there are any. -/
inductive Adjustment
  | interval (d : Duration)
  | intervalSecs (secs : Int)
  | withoutRotation
  | maxAttempts (n : UInt32)

namespace Adjustment

/-- What the interval is to be, if the adjustment is about it. -/
def interval? : Adjustment → Option (Option Duration)
  | .interval d => some (if d.nanos = 0 then none else some d)
  | .intervalSecs secs => some (if secs ≤ 0 then none else some (.ofSecs secs.toNat))
  | .withoutRotation => some none
  | .maxAttempts _ => none

def maxAttempts? : Adjustment → Option UInt32
  | .maxAttempts n => some (max n 1)
  | _ => none

def Disables : Adjustment → Prop
  | .interval d => d.nanos = 0
  | .intervalSecs secs => secs ≤ 0
  | .withoutRotation => True
  | .maxAttempts _ => False

theorem disables_iff {t : Adjustment} {d : Option Duration} (h : t.interval? = some d) :
    d = none ↔ t.Disables := by
  cases t with
  | interval d =>
      cases h
      simp [Disables]
  | intervalSecs secs =>
      cases h
      simp [Disables]
  | withoutRotation =>
      cases h
      exact iff_of_true rfl trivial
  | maxAttempts n => cases h

end Adjustment

def adjust (s : Settings) : Adjustment → Settings
  | .interval d => s.withInterval d
  | .intervalSecs secs => s.withIntervalSecs secs
  | .withoutRotation => s.withoutRotation
  | .maxAttempts n => s.withMaxAttempts n

def configure (s : Settings) (adjustments : List Adjustment) : Settings :=
  adjustments.foldl adjust s

/-- The settings that others are made from. -/
inductive Initial : Settings → Prop
  | new (issuer endpoint : String) : Initial (new issuer endpoint)
  | read {env : Environment} {s : Settings} (h : ofEnvironment env = .ok s) : Initial s

theorem one_le_max (n : UInt32) : 1 ≤ max n 1 := by
  show 1 ≤ if n ≤ 1 then 1 else n
  split
  · exact UInt32.le_refl 1
  · rename_i h
    exact UInt32.le_of_lt (UInt32.not_le.mp h)

theorem intervalOfSecs_eq (secs : Int) :
    intervalOfSecs secs = if secs ≤ 0 then none else some (.ofSecs secs.toNat) := by
  unfold intervalOfSecs
  by_cases h : 0 < secs
  · rw [if_pos h, if_neg (Int.not_le.mpr h)]
  · rw [if_neg h, if_pos (Int.not_lt.mp h)]

/-- An adjustment is about the interval or about the attempts, and leaves the rest as it was. -/
theorem adjust_eq (s : Settings) (t : Adjustment) :
    s.adjust t = { s with
      interval := t.interval?.getD s.interval
      maxAttempts := t.maxAttempts?.getD s.maxAttempts } := by
  cases t with
  | interval d =>
      simp only [adjust, withInterval, Duration.isZero, beq_iff_eq]
      rfl
  | intervalSecs secs =>
      simp only [adjust, withIntervalSecs, intervalOfSecs_eq]
      rfl
  | withoutRotation => rfl
  | maxAttempts n => rfl

theorem configure_concat (s : Settings) (adjustments : List Adjustment) (t : Adjustment) :
    s.configure (adjustments ++ [t]) = (s.configure adjustments).adjust t := by
  simp [configure]

/-- A part of the settings is as the last adjustment that is about it says, or else as it was. -/
theorem last_adjustment {α : Type} {part : Settings → α} {part? : Adjustment → Option α}
    (h : ∀ s t, part (adjust s t) = (part? t).getD (part s)) (s : Settings)
    (adjustments : List Adjustment) :
    (∃ before t after, adjustments = before ++ t :: after ∧
      part? t = some (part (s.configure adjustments)) ∧ ∀ u ∈ after, part? u = none) ∨
    (∀ u ∈ adjustments, part? u = none) ∧ part (s.configure adjustments) = part s := by
  induction adjustments using List.reverseRecOn with
  | nil => exact Or.inr ⟨by simp, rfl⟩
  | append_singleton adjustments u ih =>
      rw [configure_concat, h]
      cases hu : part? u with
      | some a => exact Or.inl ⟨adjustments, u, [], rfl, hu, by simp⟩
      | none =>
          rcases ih with ⟨before, t, after, rfl, ht, hafter⟩ | ⟨hnone, hpart⟩
          · refine Or.inl ⟨before, t, after ++ [u], by simp, ht, ?_⟩
            exact List.forall_mem_append.mpr ⟨hafter, List.forall_mem_singleton.mpr hu⟩
          · refine Or.inr ⟨?_, hpart⟩
            exact List.forall_mem_append.mpr ⟨hnone, List.forall_mem_singleton.mpr hu⟩

/-- What holds of all settings that are made and adjusted, however that is done. -/
structure Usable (s : Settings) : Prop where
  interval : ∀ d, s.interval = some d → 0 < d.nanos
  maxAttempts : 1 ≤ s.maxAttempts

theorem intervalSetting_bounds {raw : Option String} {d : Duration}
    (h : IntervalSetting raw (some d)) :
    0 < d.nanos ∧ d.nanos ≤ (Duration.ofSecs 31536000).nanos := by
  cases h with
  | unset => decide
  | every _ _ hlow hhigh =>
      exact ⟨Nat.mul_pos hlow (by decide), Nat.mul_le_mul_right 1000000000 hhigh⟩

theorem one_le_of_attemptsSetting {raw : Option String} {n : UInt32}
    (h : AttemptsSetting raw n) : 1 ≤ n := by
  cases h with
  | unset => exact UInt32.le_refl 1
  | most _ _ hlow => exact UInt32.le_iff_toNat_le.mpr hlow

theorem usable_initial {s : Settings} (h : Initial s) : s.Usable := by
  cases h with
  | new issuer endpoint =>
      refine ⟨fun d hd => ?_, UInt32.le_refl 1⟩
      cases hd
      decide
  | read h =>
      obtain ⟨-, -, hinterval, hmaxAttempts⟩ := ofEnvironment_eq_ok_iff.mp h
      refine ⟨fun d hd => ?_, one_le_of_attemptsSetting hmaxAttempts⟩
      rw [hd] at hinterval
      exact (intervalSetting_bounds hinterval).1

theorem Adjustment.interval?_pos {t : Adjustment} {d : Duration}
    (h : t.interval? = some (some d)) : 0 < d.nanos := by
  cases t with
  | interval d =>
      simp only [interval?, Option.some.injEq] at h
      split at h
      · cases h
      · cases h
        omega
  | intervalSecs secs =>
      simp only [interval?, Option.some.injEq] at h
      split at h
      · cases h
      · cases h
        exact Nat.mul_pos (by omega) (by decide)
  | withoutRotation => cases h
  | maxAttempts n => cases h

theorem Usable.adjust {s : Settings} (h : s.Usable) (t : Adjustment) : (s.adjust t).Usable := by
  rw [adjust_eq]
  constructor
  · intro d hd
    cases ht : t.interval? with
    | none =>
        rw [ht] at hd
        exact h.interval d hd
    | some given =>
        rw [ht] at hd
        obtain rfl : given = some d := hd
        exact Adjustment.interval?_pos ht
  · cases t with
    | maxAttempts n => exact one_le_max n
    | _ => exact h.maxAttempts

theorem usable_configure {s : Settings} (h : s.Usable) (adjustments : List Adjustment) :
    (s.configure adjustments).Usable := by
  induction adjustments generalizing s with
  | nil => exact h
  | cons t adjustments ih => exact ih (h.adjust t)

theorem rotationEnabled_iff {s : Settings} :
    s.rotationEnabled = true ↔ ∃ d, s.interval = some d ∧ 0 < d.nanos := by
  unfold rotationEnabled
  cases s.interval with
  | none => simp
  | some d => simp [Duration.isZero, Nat.pos_iff_ne_zero]

theorem Usable.rotationEnabled_iff {s : Settings} (h : s.Usable) :
    s.rotationEnabled = true ↔ s.interval.isSome = true := by
  rw [Settings.rotationEnabled_iff, Option.isSome_iff_exists]
  exact ⟨fun ⟨d, hd, _⟩ => ⟨d, hd⟩, fun ⟨d, hd⟩ => ⟨d, hd, h.interval d hd⟩⟩

theorem Adjustment.maxAttempts?_eq_none_iff {t : Adjustment} :
    t.maxAttempts? = none ↔ t.interval? ≠ none := by
  cases t <;> simp [maxAttempts?, interval?]

/-- Adjustments of the interval and of the attempts may be swapped. -/
theorem adjust_comm (s : Settings) {t u : Adjustment} (ht : t.interval? ≠ none)
    (hu : u.maxAttempts? ≠ none) : (s.adjust t).adjust u = (s.adjust u).adjust t := by
  have ht' := Adjustment.maxAttempts?_eq_none_iff.mpr ht
  have hu' : u.interval? = none := not_not.mp (mt Adjustment.maxAttempts?_eq_none_iff.mpr hu)
  simp only [adjust_eq, ht', hu', Option.getD_none]

theorem configure_swap (s : Settings) {t u : Adjustment} (ht : t.interval? ≠ none)
    (hu : u.maxAttempts? ≠ none) (before after : List Adjustment) :
    s.configure (before ++ t :: u :: after) = s.configure (before ++ u :: t :: after) := by
  simp only [configure, List.foldl_append, List.foldl_cons, adjust_comm _ ht hu]

/-- A ticker needs a period that is not zero and ends at a moment that can be shown. -/
theorem isSome_start?_iff (now : Instant) (s : Settings) :
    (Ticker.start? now s.interval).isSome = true ↔
      s.rotationEnabled = true ∧
        ∃ d, s.interval = some d ∧ Ticker.representable (now + d.nanos) = true := by
  rw [rotationEnabled_iff]
  unfold Ticker.start?
  cases s.interval with
  | none => simp
  | some d =>
      simp only [Option.some.injEq, exists_eq_left']
      by_cases hpos : 0 < d.nanos
      · rw [dif_pos hpos]
        by_cases hend : Ticker.representable (now + d.nanos) = true <;> simp [hpos, hend]
      · rw [dif_neg hpos]
        simp [hpos]

theorem representable_of_le {t u : Instant} (h : t ≤ u) (hu : Ticker.representable u = true) :
    Ticker.representable t = true := by
  simp only [Ticker.representable, decide_eq_true_eq] at hu ⊢
  exact Nat.lt_of_le_of_lt (Nat.add_le_add_left h _) hu

/-- The environment allows no period beyond a year. -/
theorem isSome_start?_of_read {env : Environment} {s : Settings} {now : Instant}
    (h : ofEnvironment env = .ok s)
    (hyear : Ticker.representable (now + (Duration.ofSecs 31536000).nanos) = true) :
    (Ticker.start? now s.interval).isSome = true ↔ s.rotationEnabled = true := by
  rw [isSome_start?_iff]
  refine and_iff_left_of_imp fun henabled => ?_
  obtain ⟨d, hd, -⟩ := rotationEnabled_iff.mp henabled
  have hinterval := (ofEnvironment_eq_ok_iff.mp h).interval
  rw [hd] at hinterval
  have hle := Nat.add_le_add_left (intervalSetting_bounds hinterval).2 now
  exact ⟨d, hd, representable_of_le hle hyear⟩

/-- However settings are made and adjusted, the last adjustment of the interval counts, and the last
of the attempts, in whatever order these two come. The interval is never zero, so the keys rotate if
there is one, and at least one attempt is made. A ticker is there exactly if the keys are to rotate
and the first period ends at a moment that can be shown, also if the interval was set by hand. With
settings from the environment it is there if the keys are to rotate, unless less than a year is left
to be shown. -/
theorem configure_exact {start : Settings} (hstart : Initial start)
    (adjustments : List Adjustment) :
    let s := start.configure adjustments
    s.interval ≠ some ⟨0⟩ ∧ 1 ≤ s.maxAttempts ∧
    (s.rotationEnabled = true ↔ s.interval.isSome = true) ∧
    ((∃ before t after, adjustments = before ++ t :: after ∧ t.interval? = some s.interval ∧
        (s.interval = none ↔ t.Disables) ∧ ∀ u ∈ after, u.interval? = none) ∨
      (∀ u ∈ adjustments, u.interval? = none) ∧ s.interval = start.interval) ∧
    ((∃ before n after, adjustments = before ++ .maxAttempts n :: after ∧
        s.maxAttempts = max n 1 ∧ ∀ u ∈ after, u.maxAttempts? = none) ∨
      (∀ u ∈ adjustments, u.maxAttempts? = none) ∧ s.maxAttempts = start.maxAttempts) ∧
    (∀ before t u after, t.interval? ≠ none → u.maxAttempts? ≠ none →
      start.configure (before ++ t :: u :: after) =
        start.configure (before ++ u :: t :: after)) ∧
    (∀ (now : Instant) (t : Settings), (Ticker.start? now t.interval).isSome = true ↔
      t.rotationEnabled = true ∧
        ∃ d, t.interval = some d ∧ Ticker.representable (now + d.nanos) = true) ∧
    ∀ (env : Environment) (t : Settings) (now : Instant), ofEnvironment env = .ok t →
      Ticker.representable (now + (Duration.ofSecs 31536000).nanos) = true →
        ((Ticker.start? now t.interval).isSome = true ↔ t.rotationEnabled = true) := by
  intro s
  have husable : s.Usable := usable_configure (usable_initial hstart) adjustments
  refine ⟨?_, husable.maxAttempts, husable.rotationEnabled_iff, ?_, ?_, ?_, isSome_start?_iff,
    fun env t now => isSome_start?_of_read⟩
  · intro hzero
    exact absurd (husable.interval _ hzero) (Nat.lt_irrefl 0)
  · rcases last_adjustment (fun s t => congrArg interval (adjust_eq s t)) start adjustments with
      ⟨before, t, after, hsplit, ht, hafter⟩ | hnone
    · exact Or.inl ⟨before, t, after, hsplit, ht, Adjustment.disables_iff ht, hafter⟩
    · exact Or.inr hnone
  · rcases last_adjustment (fun s t => congrArg maxAttempts (adjust_eq s t)) start adjustments with
      ⟨before, t, after, hsplit, ht, hafter⟩ | hnone
    · cases t with
      | maxAttempts n =>
          exact Or.inl ⟨before, n, after, hsplit, (Option.some.inj ht).symm, hafter⟩
      | _ => cases ht
    · exact Or.inr hnone
  · intro before t u after ht hu
    exact configure_swap start ht hu before after

/-- Settings of an environment, adjusted several times. -/
theorem configure_exact_of_minute :
    let env : Environment := fun name =>
      if name = intervalName then some " +60\n"
      else if name = maxAttemptsName then none
      else some "name"
    let start : Settings := ⟨"name", "name", some (.ofSecs 60), 1⟩
    let s := start.configure [.intervalSecs (-1), .maxAttempts 0, .interval ⟨1⟩]
    ofEnvironment env = .ok start ∧ Initial start ∧ s.interval = some ⟨1⟩ ∧ s.maxAttempts = 1 ∧
      s.rotationEnabled = true ∧ (Ticker.start? 0 start.interval).isSome = true ∧
      s = start.configure [.maxAttempts 0, .intervalSecs (-1), .interval ⟨1⟩] := by
  intro env start s
  have hread : ofEnvironment env = .ok start :=
    Except.toOption_eq_some_iff.mp (by decide +kernel)
  have hstart : Initial start := .read hread
  obtain ⟨-, -, henabled, -, -, hswap, -, hticker⟩ := configure_exact hstart
    [.intervalSecs (-1), .maxAttempts 0, .interval ⟨1⟩]
  have hyear : Ticker.representable (0 + (Duration.ofSecs 31536000).nanos) = true := by decide
  refine ⟨hread, hstart, rfl, rfl, henabled.mpr rfl, (hticker env start 0 hread hyear).mpr rfl, ?_⟩
  exact hswap [] (.intervalSecs (-1)) (.maxAttempts 0) [.interval ⟨1⟩] (by decide) (by decide)

end Keyring.Settings
