import Keyring.Proofs.Except
import Keyring.Proofs.Text.Decimal
import Keyring.Settings.Environment

namespace Keyring.Settings

open Text Text.Decimal

/-- What the variable of the interval means. A number of 64 bits that is not positive turns the
rotation off. -/
inductive IntervalSetting : Option String → Option Duration → Prop
  | unset : IntervalSetting none (some (.ofSecs 43200))
  | off {raw : String} {t : List Char} {z : Int} (ht : Trimmed raw t) (hz : Signed t z)
      (hlow : -(Nat.pow 2 63 : Int) ≤ z) (hhigh : z ≤ 0) : IntervalSetting (some raw) none
  | every {raw : String} {t : List Char} {secs : Nat} (ht : Trimmed raw t) (hsecs : Signed t secs)
      (hlow : 0 < secs) (hhigh : secs ≤ 31536000) :
      IntervalSetting (some raw) (some (.ofSecs secs))

inductive AttemptsSetting : Option String → UInt32 → Prop
  | unset : AttemptsSetting none 1
  | most {raw : String} {t : List Char} {n : UInt32} (ht : Trimmed raw t)
      (hn : Unsigned t n.toNat) (hlow : 0 < n.toNat) : AttemptsSetting (some raw) n

structure Means (env : Environment) (s : Settings) : Prop where
  issuer : env issuerName = some s.issuer
  endpoint : env endpointName = some s.endpoint
  interval : IntervalSetting (env intervalName) s.interval
  maxAttempts : AttemptsSetting (env maxAttemptsName) s.maxAttempts

/-- The first variable that is at fault, in the order in which they are read. -/
inductive Offends (env : Environment) : SettingsError → Prop
  | issuer (h : env issuerName = none) : Offends env (.missing issuerName)
  | endpoint {issuer : String} (hissuer : env issuerName = some issuer)
      (h : env endpointName = none) : Offends env (.missing endpointName)
  | interval {issuer endpoint reason : String} (hissuer : env issuerName = some issuer)
      (hendpoint : env endpointName = some endpoint)
      (h : ∀ d, ¬ IntervalSetting (env intervalName) d) :
      Offends env (.invalid intervalName reason)
  | maxAttempts {issuer endpoint reason : String} {d : Option Duration}
      (hissuer : env issuerName = some issuer) (hendpoint : env endpointName = some endpoint)
      (hinterval : IntervalSetting (env intervalName) d)
      (h : ∀ n, ¬ AttemptsSetting (env maxAttemptsName) n) :
      Offends env (.invalid maxAttemptsName reason)

section Variables

variable {env : Environment}

theorem require_eq_ok_iff {name value : String} :
    require env name = .ok value ↔ env name = some value := by
  unfold require
  cases env name <;> simp

theorem require_eq_error_iff {name : String} {e : SettingsError} :
    require env name = .error e ↔ env name = none ∧ e = .missing name := by
  unfold require
  cases env name <;> simp [eq_comm]

theorem readVariable_eq_ok_iff {α : Type} {name raw : String}
    {read : List Char → Except Text.Decimal.Fault α} {a : α} :
    readVariable name read raw = .ok a ↔ ∃ t, Trimmed raw t ∧ read t = .ok a := by
  unfold readVariable
  have htrim : ∀ t, Trimmed raw t ↔ trim raw = t := fun t => trim_eq_iff.symm
  simp only [htrim, exists_eq_left']
  cases read (trim raw) <;> simp

theorem readInterval_eq_ok_iff {d : Option Duration} :
    readInterval env = .ok d ↔ IntervalSetting (env intervalName) d := by
  unfold readInterval
  cases env intervalName with
  | none =>
      constructor
      · intro h
        cases h
        exact .unset
      · rintro ⟨⟩
        rfl
  | some raw =>
      simp only [Except.bind_eq_ok, readVariable_eq_ok_iff, readInt_eq_ok_iff]
      constructor
      · rintro ⟨z, ⟨t, ht, hz, hlow, -⟩, h⟩
        split at h
        · cases h
        · rename_i hle
          cases h
          have hhigh : z ≤ 31536000 := Int.not_lt.mp hle
          by_cases hpos : 0 < z
          · obtain ⟨secs, rfl⟩ := Int.eq_ofNat_of_zero_le (Int.le_of_lt hpos)
            rw [intervalOfSecs, if_pos hpos]
            exact .every ht hz (Int.ofNat_lt.mp hpos) (Int.ofNat_le.mp hhigh)
          · rw [intervalOfSecs, if_neg hpos]
            exact .off ht hz hlow (Int.not_lt.mp hpos)
      · rintro (_ | ⟨ht, hz, hlow, hhigh⟩ | ⟨ht, hsecs, hlow, hhigh⟩)
        · refine ⟨_, ⟨_, ht, hz, hlow, Int.le_trans hhigh (by decide)⟩, ?_⟩
          rw [if_neg (Int.not_lt.mpr (Int.le_trans hhigh (by decide))), intervalOfSecs,
            if_neg (Int.not_lt.mpr hhigh)]
          rfl
        · rename_i t secs
          have hpos : (0 : Int) < secs := Int.ofNat_lt.mpr hlow
          have hyear : (secs : Int) ≤ longestInterval := Int.ofNat_le.mpr hhigh
          refine ⟨secs, ⟨t, ht, hsecs, ?_, Int.le_trans hyear (by decide)⟩, ?_⟩
          · exact Int.le_trans (by decide) (Int.le_of_lt hpos)
          · rw [if_neg (Int.not_lt.mpr hyear), intervalOfSecs, if_pos hpos]
            rfl

theorem readMaxAttempts_eq_ok_iff {n : UInt32} :
    readMaxAttempts env = .ok n ↔ AttemptsSetting (env maxAttemptsName) n := by
  unfold readMaxAttempts
  cases env maxAttemptsName with
  | none =>
      constructor
      · intro h
        cases h
        exact .unset
      · rintro ⟨⟩
        rfl
  | some raw =>
      simp only [Except.bind_eq_ok, readVariable_eq_ok_iff, readNat_eq_ok_iff]
      constructor
      · rintro ⟨m, ⟨t, ht, hm, hle⟩, h⟩
        split at h
        · cases h
        · rename_i hne
          cases h
          have hlt : m < UInt32.size := Nat.lt_succ_of_le hle
          have htoNat : (UInt32.ofNat m).toNat = m := UInt32.toNat_ofNat_of_lt hlt
          refine .most ht ?_ ?_
          · rwa [htoNat]
          · rw [htoNat]
            exact Nat.pos_of_ne_zero hne
      · rintro (_ | ⟨ht, hn, hlow⟩)
        refine ⟨n.toNat, ⟨_, ht, hn, Nat.le_pred_of_lt n.toNat_lt⟩, ?_⟩
        rw [if_neg (Nat.ne_of_gt hlow), UInt32.ofNat_toNat]
        rfl

/-- A variable that is set is refused by its own name, as no number or as one out of bounds. -/
theorem invalid_of_readWithin {α β : Type} {name raw bound : String}
    {read : List Char → Except Text.Decimal.Fault α} {f : α → β} {outside : α → Prop}
    [DecidablePred outside] {e : SettingsError}
    (h : (do
      let a ← readVariable name read raw
      if outside a then .error (.invalid name bound) else return f a) = .error e) :
    ∃ reason, e = .invalid name reason := by
  rcases Except.bind_eq_error.mp h with h | ⟨a, -, h⟩
  · unfold readVariable at h
    split at h
    · cases h
    · exact ⟨_, (Except.error.inj h).symm⟩
  · split at h
    · exact ⟨_, (Except.error.inj h).symm⟩
    · cases h

theorem invalid_of_readInterval {e : SettingsError} (h : readInterval env = .error e) :
    ∃ reason, e = .invalid intervalName reason := by
  unfold readInterval at h
  cases hraw : env intervalName with
  | none =>
      rw [hraw] at h
      cases h
  | some raw =>
      rw [hraw] at h
      exact invalid_of_readWithin h

theorem invalid_of_readMaxAttempts {e : SettingsError} (h : readMaxAttempts env = .error e) :
    ∃ reason, e = .invalid maxAttemptsName reason := by
  unfold readMaxAttempts at h
  cases hraw : env maxAttemptsName with
  | none =>
      rw [hraw] at h
      cases h
  | some raw =>
      rw [hraw] at h
      exact invalid_of_readWithin h

end Variables

theorem ofEnvironment_eq_ok_iff {env : Environment} {s : Settings} :
    ofEnvironment env = .ok s ↔ Means env s := by
  simp only [ofEnvironment, Except.bind_eq_ok, require_eq_ok_iff, readInterval_eq_ok_iff,
    readMaxAttempts_eq_ok_iff, pure, Except.pure, Except.ok.injEq]
  constructor
  · rintro ⟨issuer, hissuer, endpoint, hendpoint, d, hd, n, hn, rfl⟩
    exact ⟨hissuer, hendpoint, hd, hn⟩
  · rintro ⟨hissuer, hendpoint, hd, hn⟩
    exact ⟨_, hissuer, _, hendpoint, _, hd, _, hn, rfl⟩

theorem offends_of_ofEnvironment {env : Environment} {e : SettingsError}
    (h : ofEnvironment env = .error e) : Offends env e := by
  rcases Except.bind_eq_error.mp h with h | ⟨issuer, hissuer, h⟩
  · obtain ⟨hnone, rfl⟩ := require_eq_error_iff.mp h
    exact .issuer hnone
  rw [require_eq_ok_iff] at hissuer
  rcases Except.bind_eq_error.mp h with h | ⟨endpoint, hendpoint, h⟩
  · obtain ⟨hnone, rfl⟩ := require_eq_error_iff.mp h
    exact .endpoint hissuer hnone
  rw [require_eq_ok_iff] at hendpoint
  rcases Except.bind_eq_error.mp h with h | ⟨d, hd, h⟩
  · obtain ⟨reason, rfl⟩ := invalid_of_readInterval h
    refine .interval hissuer hendpoint fun d hd => ?_
    cases h.symm.trans (readInterval_eq_ok_iff.mpr hd)
  rw [readInterval_eq_ok_iff] at hd
  rcases Except.bind_eq_error.mp h with h | ⟨n, -, h⟩
  · obtain ⟨reason, rfl⟩ := invalid_of_readMaxAttempts h
    refine .maxAttempts hissuer hendpoint hd fun n hn => ?_
    cases h.symm.trans (readMaxAttempts_eq_ok_iff.mpr hn)
  · cases h

theorem ofEnvironment_congr {env other : Environment}
    (h : ∀ name ∈ [issuerName, endpointName, intervalName, maxAttemptsName],
      other name = env name) : ofEnvironment other = ofEnvironment env := by
  have hissuer : other issuerName = env issuerName := h _ (by simp)
  have hendpoint : other endpointName = env endpointName := h _ (by simp)
  have hinterval : other intervalName = env intervalName := h _ (by simp)
  have hmaxAttempts : other maxAttemptsName = env maxAttemptsName := h _ (by simp)
  simp only [ofEnvironment, require, readInterval, readMaxAttempts, hissuer, hendpoint, hinterval,
    hmaxAttempts]

/-- An environment is read exactly if its four variables mean settings, and as what they mean. Else
the fault is that of the first variable without a meaning. -/
theorem ofEnvironment_exact (env : Environment) :
    (∀ s, ofEnvironment env = .ok s ↔ Means env s) ∧
      ((∃ s, ofEnvironment env = .ok s) ↔
        (∃ issuer, env issuerName = some issuer) ∧ (∃ endpoint, env endpointName = some endpoint) ∧
          (∃ d, IntervalSetting (env intervalName) d) ∧
          ∃ n, AttemptsSetting (env maxAttemptsName) n) ∧
      (∀ e, ofEnvironment env = .error e → Offends env e) ∧
      ∀ other : Environment,
        (∀ name ∈ [issuerName, endpointName, intervalName, maxAttemptsName],
          other name = env name) → ofEnvironment other = ofEnvironment env := by
  refine ⟨fun s => ofEnvironment_eq_ok_iff, ⟨?_, ?_⟩, fun e => offends_of_ofEnvironment,
    fun other => ofEnvironment_congr⟩
  · rintro ⟨s, hs⟩
    obtain ⟨hissuer, hendpoint, hinterval, hmaxAttempts⟩ := ofEnvironment_eq_ok_iff.mp hs
    exact ⟨⟨_, hissuer⟩, ⟨_, hendpoint⟩, ⟨_, hinterval⟩, ⟨_, hmaxAttempts⟩⟩
  · rintro ⟨⟨issuer, hissuer⟩, ⟨endpoint, hendpoint⟩, ⟨d, hd⟩, n, hn⟩
    exact ⟨⟨issuer, endpoint, d, n⟩, ofEnvironment_eq_ok_iff.mpr ⟨hissuer, hendpoint, hd, hn⟩⟩

end Keyring.Settings
