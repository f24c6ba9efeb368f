import Keyring.Json.Reader
import Keyring.Proofs.Except
import Keyring.Proofs.Json.Skip

namespace Keyring.Json

variable {α : Type} {w ds f e rest : Bytes}

/-- What is read does not depend on what stands behind the text. -/
def EndsAt (read : Bytes → Except Fault (α × Bytes)) (b : Bytes) : Prop :=
  ∃ found : Option α, ∀ rest, EndsNumber rest → (read (b ++ rest)).toOption = found.map (·, rest)

namespace EndsAt

variable {read other : Bytes → Except Fault (α × Bytes)} {b c : Bytes}

theorem toOption (h : EndsAt read b) (hrest : EndsNumber rest) :
    (read (b ++ rest)).toOption = (read b).toOption.map fun found => (found.1, rest) := by
  obtain ⟨found, hfound⟩ := h
  have hnil := hfound [] nofun
  rw [List.append_nil] at hnil
  rw [hfound rest hrest, hnil, Option.map_map]
  rfl

theorem of_map (x : Except Fault α)
    (heq : ∀ rest, EndsNumber rest → read (b ++ rest) = x.map (·, rest)) : EndsAt read b :=
  ⟨x.toOption, fun rest hrest => by rw [heq rest hrest, Except.toOption_map]⟩

theorem congr (h : EndsAt read b)
    (heq : ∀ rest, EndsNumber rest → other (c ++ rest) = read (b ++ rest)) : EndsAt other c := by
  obtain ⟨found, hfound⟩ := h
  exact ⟨found, fun rest hrest => by rw [heq rest hrest, hfound rest hrest]⟩

theorem map {β : Type} (h : EndsAt read b) (g : α → β) {mapped : Bytes → Except Fault (β × Bytes)}
    (heq : ∀ rest, EndsNumber rest →
      mapped (c ++ rest) = (read (b ++ rest)).map fun (a, rest) => (g a, rest)) :
    EndsAt mapped c := by
  obtain ⟨found, hfound⟩ := h
  refine ⟨found.map g, fun rest hrest => ?_⟩
  rw [heq rest hrest, Except.toOption_map, hfound rest hrest, Option.map_map, Option.map_map]
  rfl

end EndsAt

theorem Digits.cons {d : UInt8} (hd : isDigit d = true) (h : Digits ds) : Digits (d :: ds) :=
  List.forall_mem_cons.mpr ⟨hd, h⟩

theorem Digits.of_cons {d : UInt8} (h : Digits (d :: ds)) : isDigit d = true ∧ Digits ds :=
  List.forall_mem_cons.mp h

section

variable (negative : Bool) (significand : Nat)

theorem endsAt_exponentDigits (start : Int) (down : Bool) (h : Digits ds) (n : Nat) :
    EndsAt (readExponentDigits negative significand start down n) ds := by
  induction ds generalizing n with
  | nil =>
      refine .of_map (Number.ofParts negative significand (if down then start - n else start + n))
        fun rest hrest => ?_
      cases rest with
      | nil => rfl
      | cons c rest =>
          rw [List.nil_append, readExponentDigits, if_neg (by rw [(hrest c rfl).1]; decide)]
  | cons d ds ih =>
      obtain ⟨hd, htail⟩ := h.of_cons
      by_cases hsmall : n * 10 + (d.toNat - 0x30) < Nat.pow 2 31
      · refine (ih htail (n * 10 + (d.toNat - 0x30))).congr fun rest _ => ?_
        rw [List.cons_append, readExponentDigits, if_pos hd, if_pos hsmall]
      by_cases hlarge : significand ≠ 0 ∧ !down
      · refine .of_map (.error .malformed) fun rest _ => ?_
        rw [List.cons_append, readExponentDigits, if_pos hd, if_neg hsmall, if_pos hlarge]
        rfl
      · refine .of_map (.ok (.double (.zero negative))) fun rest hrest => ?_
        rw [List.cons_append, readExponentDigits, if_pos hd, if_neg hsmall, if_neg hlarge,
          skipDigits_digits htail hrest.not_isDigit]
        rfl

theorem endsAt_exponent (start : Int) {sign : Bytes} {d : UInt8}
    (hsign : sign = [] ∨ sign = [0x2B] ∨ sign = [0x2D]) (hd : isDigit d = true) (h : Digits ds) :
    EndsAt (readExponent negative significand start) (sign ++ d :: ds) := by
  have hplus : d ≠ 0x2B := by
    rintro rfl
    cases hd
  have hminus : d ≠ 0x2D := by
    rintro rfl
    cases hd
  have hdigits (down : Bool) :=
    endsAt_exponentDigits negative significand start down h (d.toNat - 0x30)
  rcases hsign with rfl | rfl | rfl
  · exact (hdigits false).congr fun rest _ => by simp [readExponent, hplus, hminus, hd]
  · exact (hdigits false).congr fun rest _ => by simp [readExponent, hd]
  · exact (hdigits true).congr fun rest _ => by simp [readExponent, hd]

theorem endsAt_afterFraction (start : Int) (he : Exponent e) :
    EndsAt (afterFraction negative significand start) e := by
  cases he with
  | none =>
      refine .of_map (Number.ofParts negative significand start) fun rest hrest => ?_
      rw [List.nil_append]
      unfold afterFraction
      split
      · exact absurd rfl (hrest _ rfl).2.2.1
      · exact absurd rfl (hrest _ rfl).2.2.2
      · rfl
  | digits he hsign hd h =>
      refine (endsAt_exponent negative significand start hsign hd h).congr fun rest _ => ?_
      rw [List.cons_append]
      rcases he with rfl | rfl <;> rfl

theorem endsAt_fraction (whole : Int) (h : Digits ds) (he : Exponent e) {read : Nat}
    (hread : read = 0 → ds ≠ []) (significand : Nat) :
    EndsAt (readFraction negative whole read significand) (ds ++ e) := by
  induction ds generalizing read significand with
  | nil =>
      have hne : read ≠ 0 := fun hzero => hread hzero rfl
      refine (endsAt_afterFraction negative significand (whole - read) he).congr
        fun rest hrest => ?_
      have hdigit := he.not_isDigit hrest
      rw [List.nil_append]
      cases htext : e ++ rest with
      | nil => rw [readFraction, if_neg hne]
      | cons c text =>
          rw [htext] at hdigit
          rw [readFraction, if_neg (by rw [hdigit c rfl]; decide), if_neg hne]
  | cons d ds ih =>
      obtain ⟨hd, htail⟩ := h.of_cons
      by_cases hfits : significand * 10 + (d.toNat - 0x30) ≤ largestSignificand
      · have hmore := ih htail (show read + 1 = 0 → ds ≠ [] from nofun)
          (significand * 10 + (d.toNat - 0x30))
        refine hmore.congr fun rest _ => ?_
        rw [List.cons_append, List.cons_append, readFraction, if_pos hd, if_pos hfits]
      · refine (endsAt_afterFraction negative significand (whole - read) he).congr
          fun rest hrest => ?_
        rw [List.cons_append, List.cons_append, readFraction, if_pos hd, if_neg hfits,
          List.append_assoc, skipDigits_digits htail (he.not_isDigit hrest)]

/-- A fraction with its point, read from behind a whole number. -/
theorem endsAt_point (whole : Int) {d : UInt8} (hd : isDigit d = true) (h : Digits ds)
    (he : Exponent e) : EndsAt (readFraction negative whole 0 significand) (d :: ds ++ e) :=
  endsAt_fraction negative whole (h.cons hd) he nofun significand

theorem endsAt_long (h : Digits ds) (hf : Fraction f) (he : Exponent e) (dropped : Nat) :
    EndsAt (readLong negative significand dropped) (ds ++ (f ++ e)) := by
  induction ds generalizing dropped with
  | nil =>
      cases hf with
      | none =>
          refine (endsAt_afterFraction negative significand dropped he).congr fun rest hrest => ?_
          cases he with
          | none =>
              cases rest with
              | nil => rfl
              | cons c rest =>
                  obtain ⟨hdigit, hpoint, -⟩ := hrest c rfl
                  simp [readLong, hdigit, hpoint]
          | digits he => rcases he with rfl | rfl <;> simp [readLong, isDigit]
      | digits hd h =>
          refine (endsAt_point negative significand dropped hd h he).congr fun rest _ => ?_
          simp [readLong, isDigit]
  | cons d ds ih =>
      obtain ⟨hd, htail⟩ := h.of_cons
      refine (ih htail (dropped + 1)).congr fun rest _ => ?_
      rw [List.cons_append, List.cons_append, readLong, if_pos hd]

theorem endsAt_afterWhole (hf : Fraction f) (he : Exponent e) (n : Nat) :
    EndsAt (afterWhole negative n) (f ++ e) := by
  cases hf with
  | none =>
      cases he with
      | none =>
          exact .of_map (.ok (.ofWhole negative n)) fun rest => afterWhole_of_ends negative n
      | digits he hsign hd h =>
          refine (endsAt_exponent negative n 0 hsign hd h).congr fun rest _ => ?_
          rw [List.nil_append, List.cons_append]
          rcases he with rfl | rfl <;> rfl
  | digits hd h => exact (endsAt_point negative n 0 hd h he).congr fun rest _ => rfl

theorem endsAt_whole (h : Digits ds) (hf : Fraction f) (he : Exponent e) (n : Nat) :
    EndsAt (readWhole negative n) (ds ++ (f ++ e)) := by
  induction ds generalizing n with
  | nil =>
      refine (endsAt_afterWhole negative hf he n).congr fun rest hrest => ?_
      have hdigit := hf.not_isDigit he hrest
      rw [List.nil_append, List.append_assoc]
      cases htext : f ++ (e ++ rest) with
      | nil => rfl
      | cons c text =>
          rw [htext] at hdigit
          rw [readWhole, if_neg (by rw [hdigit c rfl]; decide)]
  | cons d ds ih =>
      obtain ⟨hd, htail⟩ := h.of_cons
      by_cases hfits : n * 10 + (d.toNat - 0x30) ≤ largestSignificand
      · refine (ih htail (n * 10 + (d.toNat - 0x30))).congr fun rest _ => ?_
        rw [List.cons_append, List.cons_append, readWhole, if_pos hd, if_pos hfits]
      · refine (endsAt_long negative n htail hf he 1).congr fun rest _ => ?_
        rw [List.cons_append, List.cons_append, readWhole, if_pos hd, if_neg hfits]

theorem endsAt_number (hw : Whole w) (hf : Fraction f) (he : Exponent e) :
    EndsAt (readNumber negative) (w ++ (f ++ e)) := by
  cases hw with
  | zero =>
      refine (endsAt_afterWhole negative hf he 0).congr fun rest hrest => ?_
      have hdigit := hf.not_isDigit he hrest
      rw [List.append_assoc, List.append_assoc, List.singleton_append]
      cases htext : f ++ (e ++ rest) with
      | nil => rfl
      | cons c text =>
          rw [htext] at hdigit
          simp [readNumber, hdigit c rfl]
  | @digits d ds hd hne h =>
      refine (endsAt_whole negative h hf he (d.toNat - 0x30)).congr fun rest _ => ?_
      simp [readNumber, hne, hd]

end

theorem readScalar_digit {c : UInt8} (hc : isDigit c = true) (rest : Bytes) :
    readScalar (c :: rest) =
      (readNumber false (c :: rest)).map fun (n, rest) => (.number n, rest) := by
  have hquote : c ≠ quoteMark := by
    rintro rfl
    exact absurd hc (by decide)
  have hminus : c ≠ minusSign := by
    rintro rfl
    exact absurd hc (by decide)
  rw [readScalar, if_neg hquote, if_neg hminus, if_pos hc]

/-- A number is read by its digits alone. -/
theorem Numeral.endsAt {b : Bytes} (h : Numeral b) : EndsAt readScalar b := by
  cases h with
  | positive hw hf he =>
      refine (endsAt_number false hw hf he).map .number fun rest _ => ?_
      cases hw with
      | zero => exact readScalar_digit (by decide) _
      | digits hd => exact readScalar_digit hd _
  | negative hw hf he =>
      refine (endsAt_number true hw hf he).map .number fun rest _ => ?_
      rw [List.cons_append, readScalar, if_neg (by decide), if_pos rfl]

end Keyring.Json
