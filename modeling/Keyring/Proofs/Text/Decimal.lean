import Keyring.Text.Blank
import Keyring.Text.Decimal

namespace Keyring.Text

/-- What stands between the outermost characters of a text that are not blank, these included. -/
def Trimmed (s : String) (t : List Char) : Prop :=
  ∃ before after : List Char, s.toList = before ++ (t ++ after) ∧
    (∀ c ∈ before, isBlank c = true) ∧ (∀ c ∈ after, isBlank c = true) ∧
    (∀ c ∈ t.head?, isBlank c = false) ∧ ∀ c ∈ t.getLast?, isBlank c = false

theorem dropWhile_eq_iff {p : Char → Bool} {cs t : List Char} :
    cs.dropWhile p = t ↔
      ∃ before, cs = before ++ t ∧ (∀ c ∈ before, p c = true) ∧ ∀ c ∈ t.head?, p c = false := by
  constructor
  · rintro rfl
    refine ⟨cs.takeWhile p, List.takeWhile_append_dropWhile.symm, fun c => ?_, fun c hc => ?_⟩
    · exact List.all_eq_true.mp List.all_takeWhile c
    · have hhead := List.head?_dropWhile_not p cs
      rw [Option.mem_def.mp hc] at hhead
      exact hhead
  · rintro ⟨before, rfl, hbefore, ht⟩
    rw [List.dropWhile_append_of_pos hbefore]
    cases t with
    | nil => rfl
    | cons c t => exact List.dropWhile_cons_of_neg (by simp [ht c rfl])

theorem trim_eq_iff {s : String} {t : List Char} : trim s = t ↔ Trimmed s t := by
  have hreverse : trim s = t ↔
      (s.toList.dropWhile isBlank).reverse.dropWhile isBlank = t.reverse :=
    List.reverse_eq_iff
  rw [hreverse]
  constructor
  · intro htrim
    obtain ⟨after, hafter, hblank, hlast⟩ := dropWhile_eq_iff.mp htrim
    have hstart : s.toList.dropWhile isBlank = t ++ after.reverse := by
      rw [← List.reverse_reverse (s.toList.dropWhile isBlank), hafter]
      simp
    obtain ⟨before, hs, hbefore, hhead⟩ := dropWhile_eq_iff.mp hstart
    refine ⟨before, after.reverse, hs, hbefore, fun c hc => hblank c (List.mem_reverse.mp hc),
      fun c hc => hhead c ?_, fun c hc => hlast c ?_⟩
    · cases t with
      | nil => cases hc
      | cons d t => exact hc
    · rwa [List.head?_reverse]
  · rintro ⟨before, after, hs, hbefore, hafter, hhead, hlast⟩
    rw [hs, List.dropWhile_append_of_pos hbefore]
    cases t with
    | nil =>
        have hnone : (after ++ []).dropWhile isBlank = [] := List.dropWhile_append_of_pos hafter
        rw [List.append_nil] at hnone
        simp [hnone]
    | cons d t =>
        have hstart : (d :: t ++ after).dropWhile isBlank = d :: t ++ after :=
          List.dropWhile_cons_of_neg (by simp [hhead d rfl])
        have hreversed : ∀ c ∈ after.reverse, isBlank c = true := fun c hc =>
          hafter c (List.mem_reverse.mp hc)
        rw [hstart, List.reverse_append]
        refine dropWhile_eq_iff.mpr ⟨after.reverse, rfl, hreversed, fun c hc => hlast c ?_⟩
        rwa [← List.head?_reverse]

namespace Decimal

/-- One or more digits. -/
def Digits (ds : List Char) : Prop := ds ≠ [] ∧ ∀ c ∈ ds, c.isDigit = true

def value (ds : List Char) : Nat := Nat.ofDigitChars 10 ds 0

/-- The texts of a number without a sign other than a plus. Leading zeros do not matter. -/
inductive Unsigned : List Char → Nat → Prop
  | plain {ds : List Char} (h : Digits ds) : Unsigned ds (value ds)
  | plus {ds : List Char} (h : Digits ds) : Unsigned ('+' :: ds) (value ds)

inductive Signed : List Char → Int → Prop
  | plain {ds : List Char} (h : Digits ds) : Signed ds (value ds)
  | plus {ds : List Char} (h : Digits ds) : Signed ('+' :: ds) (value ds)
  | minus {ds : List Char} (h : Digits ds) : Signed ('-' :: ds) (-(value ds : Int))

theorem isDigit_iff {c : Char} : c.isDigit = true ↔ '0' ≤ c ∧ c ≤ '9' := by
  simp only [Char.isDigit, Bool.and_eq_true, decide_eq_true_eq]
  exact Iff.rfl

theorem digit?_of_isDigit {c : Char} (h : c.isDigit = true) :
    digit? c = some (c.toNat - '0'.toNat) := if_pos (isDigit_iff.mp h)

theorem digit?_of_not_isDigit {c : Char} (h : ¬ c.isDigit = true) : digit? c = none :=
  if_neg fun hrange => h (isDigit_iff.mpr hrange)

theorem le_ofDigitChars (ds : List Char) (n : Nat) : n ≤ Nat.ofDigitChars 10 ds n := by
  induction ds generalizing n with
  | nil => exact Nat.le_refl n
  | cons c ds ih =>
      rw [Nat.ofDigitChars_cons]
      have hrest := ih (10 * n + (c.toNat - '0'.toNat))
      omega

/-- The value only grows while digits are read, so the bound is passed in the end if it is passed
once. -/
theorem magnitude_eq_ok_iff {bound v n : Nat} {beyond : Fault} {ds : List Char} (hv : v ≤ bound) :
    magnitude bound beyond v ds = .ok n ↔
      (∀ c ∈ ds, c.isDigit = true) ∧ Nat.ofDigitChars 10 ds v = n ∧ n ≤ bound := by
  induction ds generalizing v with
  | nil =>
      constructor
      · intro h
        cases h
        exact ⟨by simp, rfl, hv⟩
      · rintro ⟨-, rfl, -⟩
        rfl
  | cons c ds ih =>
      rw [magnitude]
      by_cases hc : c.isDigit = true
      · simp only [digit?_of_isDigit hc, Nat.ofDigitChars_cons, Nat.mul_comm 10 v,
          List.forall_mem_cons, hc, true_and]
        split
        · rename_i hle
          exact ih hle
        · rename_i hlarge
          have hgrows := le_ofDigitChars ds (v * 10 + (c.toNat - '0'.toNat))
          refine iff_of_false (by simp) ?_
          rintro ⟨-, rfl, hle⟩
          exact hlarge (Nat.le_trans hgrows hle)
      · simp only [digit?_of_not_isDigit hc, List.forall_mem_cons, hc]
        simp

theorem magnitude_zero_eq_ok_iff {bound n : Nat} {beyond : Fault} {ds : List Char} (hne : ds ≠ []) :
    magnitude bound beyond 0 ds = .ok n ↔ Digits ds ∧ value ds = n ∧ n ≤ bound := by
  simp only [magnitude_eq_ok_iff (Nat.zero_le bound), Digits, value, and_iff_right hne]

section Signs

variable {c : Char} {ds : List Char} {n : Nat} {z : Int}

theorem Digits.not_sign (h : Digits (c :: ds)) : c ≠ '+' ∧ c ≠ '-' := by
  have hc := h.2 c List.mem_cons_self
  constructor
  · rintro rfl
    exact absurd hc (by decide)
  · rintro rfl
    exact absurd hc (by decide)

theorem unsigned_plus_iff : Unsigned ('+' :: ds) n ↔ Digits ds ∧ value ds = n := by
  constructor
  · rintro (h | h)
    · exact absurd rfl h.not_sign.1
    · exact ⟨h, rfl⟩
  · rintro ⟨h, rfl⟩
    exact .plus h

theorem unsigned_iff (hc : c ≠ '+') :
    Unsigned (c :: ds) n ↔ Digits (c :: ds) ∧ value (c :: ds) = n := by
  constructor
  · rintro (h | h)
    · exact ⟨h, rfl⟩
    · exact absurd rfl hc
  · rintro ⟨h, rfl⟩
    exact .plain h

theorem signed_plus_iff : Signed ('+' :: ds) z ↔ Digits ds ∧ (value ds : Int) = z := by
  constructor
  · rintro (h | h | h)
    · exact absurd rfl h.not_sign.1
    · exact ⟨h, rfl⟩
  · rintro ⟨h, rfl⟩
    exact .plus h

theorem signed_minus_iff : Signed ('-' :: ds) z ↔ Digits ds ∧ -(value ds : Int) = z := by
  constructor
  · rintro (h | h | h)
    · exact absurd rfl h.not_sign.2
    · exact ⟨h, rfl⟩
  · rintro ⟨h, rfl⟩
    exact .minus h

theorem signed_iff (hplus : c ≠ '+') (hminus : c ≠ '-') :
    Signed (c :: ds) z ↔ Digits (c :: ds) ∧ (value (c :: ds) : Int) = z := by
  constructor
  · rintro (h | h | h)
    · exact ⟨h, rfl⟩
    · exact absurd rfl hplus
    · exact absurd rfl hminus
  · rintro ⟨h, rfl⟩
    exact .plain h

end Signs

theorem readNat_eq_ok_iff {bound n : Nat} {t : List Char} :
    readNat bound t = .ok n ↔ Unsigned t n ∧ n ≤ bound := by
  unfold readNat
  split
  · refine iff_of_false (by simp) ?_
    rintro ⟨h | h, -⟩
    exact h.1 rfl
  · refine iff_of_false (by simp) ?_
    rw [unsigned_plus_iff]
    rintro ⟨⟨h, -⟩, -⟩
    exact h.1 rfl
  · rename_i digits hne
    rw [magnitude_zero_eq_ok_iff hne, unsigned_plus_iff, and_assoc]
  · rename_i hempty hsign hplus
    cases t with
    | nil => exact absurd rfl hempty
    | cons c ds =>
        have hc : c ≠ '+' := by
          rintro rfl
          exact hplus ds rfl
        rw [magnitude_zero_eq_ok_iff (List.cons_ne_nil c ds), unsigned_iff hc, and_assoc]

section Magnitudes

variable {bound : Nat} {beyond : Fault} {ds : List Char} {z : Int}

theorem map_magnitude_eq_ok_iff (hne : ds ≠ []) :
    (magnitude bound beyond 0 ds).map Int.ofNat = .ok z ↔
      (Digits ds ∧ (value ds : Int) = z) ∧ -(bound + 1 : Int) ≤ z ∧ z ≤ bound := by
  have hread : (magnitude bound beyond 0 ds).map Int.ofNat = .ok z ↔
      ∃ n : Nat, magnitude bound beyond 0 ds = .ok n ∧ (n : Int) = z := by
    cases magnitude bound beyond 0 ds <;> simp [Except.map]
  simp only [hread, magnitude_zero_eq_ok_iff hne]
  constructor
  · rintro ⟨n, ⟨h, rfl, hle⟩, rfl⟩
    exact ⟨⟨h, rfl⟩, by omega, by omega⟩
  · rintro ⟨⟨h, rfl⟩, -, hle⟩
    exact ⟨_, ⟨h, rfl, by omega⟩, rfl⟩

/-- Below zero there is room for one number more. -/
theorem map_neg_magnitude_eq_ok_iff (hne : ds ≠ []) :
    (magnitude (bound + 1) beyond 0 ds).map (fun n : Nat => -(n : Int)) = .ok z ↔
      (Digits ds ∧ -(value ds : Int) = z) ∧ -(bound + 1 : Int) ≤ z ∧ z ≤ bound := by
  have hread : (magnitude (bound + 1) beyond 0 ds).map (fun n : Nat => -(n : Int)) = .ok z ↔
      ∃ n : Nat, magnitude (bound + 1) beyond 0 ds = .ok n ∧ -(n : Int) = z := by
    cases magnitude (bound + 1) beyond 0 ds <;> simp [Except.map]
  simp only [hread, magnitude_zero_eq_ok_iff hne]
  constructor
  · rintro ⟨n, ⟨h, rfl, hle⟩, rfl⟩
    exact ⟨⟨h, rfl⟩, by omega, by omega⟩
  · rintro ⟨⟨h, rfl⟩, hle, -⟩
    exact ⟨_, ⟨h, rfl, by omega⟩, rfl⟩

end Magnitudes

theorem readInt_eq_ok_iff {bound : Nat} {z : Int} {t : List Char} :
    readInt bound t = .ok z ↔ Signed t z ∧ -(bound + 1 : Int) ≤ z ∧ z ≤ bound := by
  unfold readInt
  split
  · refine iff_of_false (by simp) ?_
    rintro ⟨h | h | h, -⟩
    exact h.1 rfl
  · refine iff_of_false (by simp) ?_
    rw [signed_plus_iff]
    rintro ⟨⟨h, -⟩, -⟩
    exact h.1 rfl
  · refine iff_of_false (by simp) ?_
    rw [signed_minus_iff]
    rintro ⟨⟨h, -⟩, -⟩
    exact h.1 rfl
  · rename_i digits hne
    rw [map_magnitude_eq_ok_iff hne, signed_plus_iff]
  · rename_i digits hne
    rw [map_neg_magnitude_eq_ok_iff hne, signed_minus_iff]
  · rename_i hempty _ _ hplus hminus
    cases t with
    | nil => exact absurd rfl hempty
    | cons c ds =>
        have hnotPlus : c ≠ '+' := by
          rintro rfl
          exact hplus ds rfl
        have hnotMinus : c ≠ '-' := by
          rintro rfl
          exact hminus ds rfl
        rw [map_magnitude_eq_ok_iff (List.cons_ne_nil c ds), signed_iff hnotPlus hnotMinus]

end Decimal

end Keyring.Text
