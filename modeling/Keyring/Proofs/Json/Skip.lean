import Keyring.Proofs.Json.Grammar
import Keyring.Proofs.Json.Members
import Keyring.Proofs.Json.Number

namespace Keyring.Json

section Spaces

variable {u : Bytes}

theorem skipSpace_spaces (hu : Spaces u) (text : Bytes) :
    skipSpace (u ++ text) = skipSpace text := by
  induction u with
  | nil => rfl
  | cons c u ih =>
      have hc : isSpace c = true := hu c List.mem_cons_self
      have hrest := ih fun d hd => hu d (List.mem_cons_of_mem c hd)
      exact (List.dropWhile_cons_of_pos hc).trans hrest

theorem skipSpace_spaces_cons (hu : Spaces u) {c : UInt8} (hc : isSpace c = false) (rest : Bytes) :
    skipSpace (u ++ c :: rest) = c :: rest := by
  rw [skipSpace_spaces hu, skipSpace_cons hc]

theorem endsNumber_of_isSpace {c : UInt8} (hc : isSpace c = true) (rest : Bytes) :
    EndsNumber (c :: rest) := by
  intro d hd
  obtain rfl : c = d := Option.some.inj hd
  simp only [isSpace, Bool.or_eq_true, beq_iff_eq] at hc
  rcases hc with ((rfl | rfl) | rfl) | rfl <;> decide

theorem endsNumber_spaces (hu : Spaces u) {rest : Bytes} (h : EndsNumber rest) :
    EndsNumber (u ++ rest) := by
  cases u with
  | nil => exact h
  | cons c u => exact endsNumber_of_isSpace (hu c List.mem_cons_self) _

end Spaces

section Numbers

variable {rest : Bytes}

theorem skipDigits_digits {ds : Bytes} (h : Digits ds)
    (hrest : ∀ b ∈ rest.head?, isDigit b = false) : skipDigits (ds ++ rest) = rest := by
  induction ds with
  | nil =>
      cases rest with
      | nil => rfl
      | cons b rest => simp [skipDigits, hrest b rfl]
  | cons d ds ih =>
      have hd : isDigit d = true := h d List.mem_cons_self
      have htail := ih fun c hc => h c (List.mem_cons_of_mem d hc)
      exact (List.dropWhile_cons_of_pos hd).trans htail

theorem EndsNumber.not_isDigit (h : EndsNumber rest) : ∀ b ∈ rest.head?, isDigit b = false :=
  fun b hb => (h b hb).1

theorem skipExponent_digits {sign ds : Bytes} {d : UInt8}
    (hsign : sign = [] ∨ sign = [0x2B] ∨ sign = [0x2D]) (hd : isDigit d = true) (h : Digits ds)
    (hrest : EndsNumber rest) : skipExponent (sign ++ d :: (ds ++ rest)) = .ok rest := by
  have hplus : d ≠ 0x2B := by
    rintro rfl
    cases hd
  have hminus : d ≠ 0x2D := by
    rintro rfl
    cases hd
  rcases hsign with rfl | rfl | rfl
  · simp [skipExponent, hplus, hminus, hd, skipDigits_digits h hrest.not_isDigit]
  · simp [skipExponent, hd, skipDigits_digits h hrest.not_isDigit]
  · simp [skipExponent, hd, skipDigits_digits h hrest.not_isDigit]

theorem Exponent.not_isDigit {e : Bytes} (he : Exponent e) (hrest : EndsNumber rest) :
    ∀ b ∈ (e ++ rest).head?, isDigit b = false := by
  cases he with
  | none => exact hrest.not_isDigit
  | digits he =>
      intro b hb
      obtain rfl := Option.some.inj hb
      rcases he with rfl | rfl <;> decide

theorem Fraction.not_isDigit {f e : Bytes} (hf : Fraction f) (he : Exponent e)
    (hrest : EndsNumber rest) : ∀ b ∈ (f ++ (e ++ rest)).head?, isDigit b = false := by
  cases hf with
  | none => exact he.not_isDigit hrest
  | digits =>
      intro b hb
      obtain rfl := Option.some.inj hb
      decide

theorem skipAfterWhole_exponent {e : Bytes} (he : Exponent e) (hrest : EndsNumber rest) :
    skipAfterWhole (e ++ rest) = .ok rest := by
  cases he with
  | none =>
      rw [List.nil_append]
      unfold skipAfterWhole
      split
      · exact absurd rfl (hrest _ rfl).2.1
      · exact absurd rfl (hrest _ rfl).2.1
      · exact absurd rfl (hrest _ rfl).2.2.1
      · exact absurd rfl (hrest _ rfl).2.2.2
      · rfl
  | @digits e d sign ds he hsign hd h =>
      have hskip := skipExponent_digits hsign hd h hrest
      rw [List.cons_append, List.append_assoc, List.cons_append]
      rcases he with rfl | rfl
      · simp [skipAfterWhole, hskip]
      · simp [skipAfterWhole, hskip]

theorem skipAfterWhole_fraction {f e : Bytes} (hf : Fraction f) (he : Exponent e)
    (hrest : EndsNumber rest) : skipAfterWhole (f ++ (e ++ rest)) = .ok rest := by
  cases hf with
  | none => exact skipAfterWhole_exponent he hrest
  | @digits d ds hd h =>
      have hdigits := skipDigits_digits h (he.not_isDigit hrest)
      simp only [List.cons_append, skipAfterWhole, hd, if_true, hdigits]
      cases he with
      | none =>
          rw [List.nil_append]
          split
          · exact absurd rfl (hrest _ rfl).2.2.1
          · exact absurd rfl (hrest _ rfl).2.2.2
          · rfl
      | @digits e d sign ds he hsign hd h =>
          have hskip := skipExponent_digits hsign hd h hrest
          rw [List.cons_append, List.append_assoc, List.cons_append]
          rcases he with rfl | rfl
          · exact hskip
          · exact hskip

theorem skipNumber_whole {w f e : Bytes} (hw : Whole w) (hf : Fraction f) (he : Exponent e)
    (hrest : EndsNumber rest) : skipNumber (w ++ (f ++ (e ++ rest))) = .ok rest := by
  have hskip := skipAfterWhole_fraction hf he hrest
  have hnot := hf.not_isDigit he hrest
  cases hw with
  | zero =>
      rw [List.singleton_append]
      cases htext : f ++ (e ++ rest) with
      | nil =>
          rw [htext] at hskip
          exact hskip
      | cons c text =>
          rw [htext] at hskip hnot
          simp [skipNumber, hnot c rfl, hskip]
  | @digits d ds hd hne h =>
      have hdigits := skipDigits_digits h hnot
      simp only [List.cons_append, skipNumber, if_neg hne, if_pos hd, hdigits, hskip]

end Numbers

section Texts

variable {text out rest : Bytes}

theorem skipText_escape {after : Bytes} (h : skipEscape text = .ok after) :
    skipText (backslash :: text) = skipText after := by
  rw [skipText, if_neg (by decide), if_pos rfl]
  split
  · rename_i fault hfault
    cases h.symm.trans hfault
  · rename_i hskip
    cases h.symm.trans hskip
    rfl

theorem skipText_number {n : Nat} (h : hexQuad text = .ok (n, rest)) :
    skipText (backslash :: 0x75 :: text) = skipText rest := by
  apply skipText_escape
  simp only [skipEscape, if_pos, h, Except.map]

theorem skipText_of_lowSurrogate {high : Nat} {after : Bytes}
    (h : lowSurrogate high text = .ok (out, after)) : skipText text = skipText after := by
  rcases text with _ | ⟨b, _ | ⟨u, text⟩⟩
  · cases h
  · simp only [lowSurrogate] at h
    split at h <;> cases h
  · simp only [lowSurrogate] at h
    split at h
    · rename_i hescape
      obtain ⟨rfl, rfl⟩ := hescape
      split at h
      · cases h
      · rename_i hquad
        split at h
        · rw [skipText_number hquad, (Prod.mk.inj (Except.ok.inj h)).2]
        · cases h
    · cases h

/-- Skipping takes the two escapes of a pair one at a time. -/
theorem skipText_of_unescape {after : Bytes} (h : unescape text = .ok (out, after)) :
    skipText (backslash :: text) = skipText after := by
  cases text with
  | nil => cases h
  | cons b text =>
      simp only [unescape] at h
      split at h
      · rename_i hb
        subst hb
        split at h
        · cases h
        · rename_i n rest hquad
          rw [skipText_number hquad]
          split at h
          · cases h
          · split at h
            · exact skipText_of_lowSurrogate h
            · cases h
              rfl
      · rename_i hb
        split at h
        · rename_i octet hshort
          cases h
          apply skipText_escape
          simp only [skipEscape, if_neg hb, hshort, Option.isSome_some, if_true]
        · cases h

theorem skipText_of_unquote (h : unquote text = .ok (out, rest)) : skipText text = .ok rest := by
  fun_induction unquote text generalizing out rest with
  | case1 | case3 | case4 | case6 | case7 => cases h
  | case2 =>
      cases h
      simp [skipText]
  | case5 tail octets after hescape more rest' hmore _ ih =>
      cases h
      rw [skipText_of_unescape hescape, ih hmore]
  | case8 b tail hquote hbackslash hcontrol more rest' hmore ih =>
      cases h
      rw [skipText, if_neg hquote, if_neg hbackslash, if_neg hcontrol, ih hmore]

theorem SpellsText.exists_skipText {s : String} {b : Bytes} (h : SpellsText s b) (rest : Bytes) :
    ∃ body, b ++ rest = quoteMark :: body ∧ skipText body = .ok rest := by
  obtain ⟨body, hbody, hread⟩ := h.exists_readText rest
  refine ⟨body, hbody, ?_⟩
  unfold readText at hread
  split at hread
  · cases hread
  · rename_i hunquote
    split at hread
    · cases hread
      exact skipText_of_unquote hunquote
    · cases hread

end Texts

end Keyring.Json
