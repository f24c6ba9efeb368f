import Keyring.Json.Text

namespace Keyring

namespace Bytes

/-- The octets of some text. -/
def IsText (b : Bytes) : Prop := ∃ s, ofText s = b

theorem ofText_eq (s : String) : ofText s = s.toList.flatMap String.utf8EncodeChar := by
  have h : s.toByteArray = s.toList.utf8Encode := by
    rw [← String.toByteArray_ofList, String.ofList_toList]
  simp [ofText, h, List.utf8Encode]

theorem ofText_append (s t : String) : ofText (s ++ t) = ofText s ++ ofText t := by
  simp only [ofText_eq, String.toList_append, List.flatMap_append]

theorem IsText.append {a b : Bytes} (ha : a.IsText) (hb : b.IsText) : IsText (a ++ b) := by
  obtain ⟨s, rfl⟩ := ha
  obtain ⟨t, rfl⟩ := hb
  exact ⟨s ++ t, ofText_append s t⟩

theorem isText_of_ascii {b : Bytes} (h : ∀ c ∈ b, c.toNat < 128) : IsText b :=
  ⟨b.toLatin, ofText_toLatin h⟩

theorem isText_singleton {c : UInt8} (hc : c.toNat < 128) : IsText [c] :=
  isText_of_ascii fun _ hd => List.mem_singleton.mp hd ▸ hc

theorem IsText.cons {c : UInt8} {b : Bytes} (hc : c.toNat < 128) (hb : b.IsText) :
    IsText (c :: b) :=
  (isText_singleton hc).append hb

theorem le_toNat_ofNat {n : Nat} (hlow : 128 ≤ n) (hhigh : n < 256) :
    128 ≤ (UInt8.ofNat n).toNat := by
  rw [UInt8.toNat_ofNat', Nat.mod_eq_of_lt hhigh]
  exact hlow

theorem le_toNat_of_mem_utf8EncodeChar {c : Char} (hc : ¬ c.val.toNat ≤ 0x7F) {b : UInt8}
    (hb : b ∈ String.utf8EncodeChar c) : 128 ≤ b.toNat := by
  simp only [String.utf8EncodeChar, if_neg hc] at hb
  repeat' split at hb
  all_goals simp only [List.mem_cons, List.not_mem_nil, or_false] at hb
  · rcases hb with rfl | rfl <;> exact le_toNat_ofNat (by omega) (by omega)
  · rcases hb with rfl | rfl | rfl <;> exact le_toNat_ofNat (by omega) (by omega)
  · rcases hb with rfl | rfl | rfl | rfl <;> exact le_toNat_ofNat (by omega) (by omega)

end Bytes

namespace Json

theorem hexValue?_hexDigit {n : UInt8} (h : n < 0x10) :
    hexValue? (escapeByte.hexDigit n) = some n.toNat := by
  have hall : ∀ i : Fin 16, hexValue? (escapeByte.hexDigit (UInt8.ofNat i)) = some i.val := by
    decide
  simpa using hall ⟨n.toNat, h⟩

theorem charBytes_toNat {b : UInt8} (h : b < 0x20) : charBytes b.toNat = [b] := by
  have hlt : b.toNat < 0x20 := h
  exact Bytes.utf8EncodeChar_ofNat (by omega)

/-- How an octet is written inside quotes: behind a backslash by a sign of its own, by four
hexadecimal digits, or as it is. -/
inductive Written (b : UInt8) : Bytes → Prop
  | short {sign : UInt8} (hsign : sign ≠ 0x75) (h : shortEscape? sign = some b) :
      Written b [backslash, sign]
  | control {high low : UInt8} (h : b < 0x20) (hhigh : hexValue? high = some (b.toNat / 0x10))
      (hlow : hexValue? low = some (b.toNat % 0x10)) :
      Written b [backslash, 0x75, 0x30, 0x30, high, low]
  | plain (hquote : b ≠ quoteMark) (hbackslash : b ≠ backslash) (h : ¬ b < 0x20) : Written b [b]

theorem written_escapeByte (b : UInt8) : Written b (escapeByte b) := by
  have hdigit : hexValue? (escapeByte.hexDigit (b % 0x10)) = some (b.toNat % 0x10) :=
    hexValue?_hexDigit (UInt8.mod_lt _ (by decide))
  unfold escapeByte
  split
  · exact .short (by decide) rfl
  · exact .short (by decide) rfl
  · exact .short (by decide) rfl
  · exact .short (by decide) rfl
  · exact .short (by decide) rfl
  · exact .short (by decide) rfl
  · exact .short (by decide) rfl
  · rename_i hquote hbackslash _ _ _ _ _
    split
    · rename_i h
      have hlt : b.toNat < 0x10 := h
      have hzero : b.toNat / 0x10 = 0 := by omega
      exact .control (UInt8.lt_trans h (by decide)) (by rw [hzero]; rfl) hdigit
    · rename_i hge
      split
      · rename_i h
        have hlow : ¬ b.toNat < 0x10 := hge
        have hhigh : b.toNat < 0x20 := h
        have hone : b.toNat / 0x10 = 1 := by omega
        exact .control h (by rw [hone]; rfl) hdigit
      · rename_i h
        exact .plain hquote hbackslash h

theorem unescape_short {sign b : UInt8} (hsign : sign ≠ 0x75) (h : shortEscape? sign = some b)
    (rest : Bytes) : unescape (sign :: rest) = .ok ([b], rest) := by
  simp only [unescape, if_neg hsign, h]

theorem unescape_control {b high low : UInt8} (h : b < 0x20)
    (hhigh : hexValue? high = some (b.toNat / 0x10))
    (hlow : hexValue? low = some (b.toNat % 0x10)) (rest : Bytes) :
    unescape (0x75 :: 0x30 :: 0x30 :: high :: low :: rest) = .ok ([b], rest) := by
  have hlt : b.toNat < 0x20 := h
  have hzero : hexValue? 0x30 = some 0 := by decide
  have hsum : ((0 * 16 + 0) * 16 + b.toNat / 0x10) * 16 + b.toNat % 0x10 = b.toNat := by omega
  have hquad : hexQuad (0x30 :: 0x30 :: high :: low :: rest) = .ok (b.toNat, rest) := by
    simp only [hexQuad, hzero, hhigh, hlow, hsum]
  have hnotLow : ¬ (0xDC00 ≤ b.toNat ∧ b.toNat ≤ 0xDFFF) := by omega
  have hnotHigh : ¬ (0xD800 ≤ b.toNat ∧ b.toNat ≤ 0xDBFF) := by omega
  simp only [unescape, if_pos, hquad, if_neg hnotLow, if_neg hnotHigh, charBytes_toNat h]

theorem unquote_escape {text after octets out rest : Bytes}
    (h : unescape text = .ok (octets, after)) (hrest : unquote after = .ok (out, rest)) :
    unquote (backslash :: text) = .ok (octets ++ out, rest) := by
  rw [unquote, if_neg (by decide), if_pos rfl]
  split
  · rename_i fault hfault
    cases h.symm.trans hfault
  · rename_i hread
    cases h.symm.trans hread
    rw [hrest]

theorem unquote_written {b : UInt8} {written text out rest : Bytes} (h : Written b written)
    (hrest : unquote text = .ok (out, rest)) :
    unquote (written ++ text) = .ok (b :: out, rest) := by
  cases h with
  | short hsign hshort => exact unquote_escape (unescape_short hsign hshort text) hrest
  | control hlt hhigh hlow => exact unquote_escape (unescape_control hlt hhigh hlow text) hrest
  | plain hquote hbackslash hge => simp [unquote, hquote, hbackslash, hge, hrest]

/-- What is written between quotes is read back, whatever the octets are. -/
theorem unquote_flatMap_escapeByte (b rest : Bytes) :
    unquote (b.flatMap escapeByte ++ quoteMark :: rest) = .ok (b, rest) := by
  induction b with
  | nil => simp [unquote]
  | cons c b ih =>
      rw [List.flatMap_cons, List.append_assoc]
      exact unquote_written (written_escapeByte c) ih

/-- A text that is written in quotes is read back from behind its first quote. -/
theorem exists_readText_quote (s : String) (rest : Bytes) :
    ∃ text, quote s ++ rest = quoteMark :: text ∧ readText text = .ok (s, rest) := by
  refine ⟨(Bytes.ofText s).flatMap escapeByte ++ quoteMark :: rest, by simp [quote], ?_⟩
  simp only [readText, unquote_flatMap_escapeByte, Bytes.toText?_ofText]

theorem toNat_lt_of_mem_escapeByte {b c : UInt8} (hb : b.toNat < 128) (hc : c ∈ escapeByte b) :
    c.toNat < 128 := by
  have hall : ∀ i : Fin 128,
      ((escapeByte (UInt8.ofNat i)).all fun c => decide (c.toNat < 128)) = true := by
    decide
  have hoctet := List.all_eq_true.mp (hall ⟨b.toNat, hb⟩) c
  rw [UInt8.ofNat_toNat] at hoctet
  exact of_decide_eq_true (hoctet hc)

theorem escapeByte_of_le {b : UInt8} (hb : 128 ≤ b.toNat) : escapeByte b = [b] := by
  have hlow : ¬ b < 0x10 := by
    show ¬ b.toNat < 0x10
    omega
  have hhigh : ¬ b < 0x20 := by
    show ¬ b.toNat < 0x20
    omega
  unfold escapeByte
  split
  · exact absurd hb (by decide)
  · exact absurd hb (by decide)
  · exact absurd hb (by decide)
  · exact absurd hb (by decide)
  · exact absurd hb (by decide)
  · exact absurd hb (by decide)
  · exact absurd hb (by decide)
  · rw [if_neg hlow, if_neg hhigh]

/-- Escapes stand for characters of one octet only, so what is escaped stays a text. -/
theorem isText_escaped (c : Char) :
    Bytes.IsText ((String.utf8EncodeChar c).flatMap escapeByte) := by
  by_cases hc : c.val.toNat ≤ 0x7F
  · apply Bytes.isText_of_ascii
    intro b hb
    have hencode : String.utf8EncodeChar c = [UInt8.ofNat c.val.toNat] := if_pos hc
    rw [hencode, List.flatMap_singleton] at hb
    apply toNat_lt_of_mem_escapeByte _ hb
    rw [UInt8.toNat_ofNat']
    omega
  · have hsame : (String.utf8EncodeChar c).flatMap escapeByte = String.utf8EncodeChar c := by
      have hplain : ∀ b ∈ String.utf8EncodeChar c, escapeByte b = [b] :=
        fun b hb => escapeByte_of_le (Bytes.le_toNat_of_mem_utf8EncodeChar hc hb)
      rw [List.flatMap_def, List.map_congr_left hplain, ← List.flatMap_def,
        List.flatMap_singleton']
    rw [hsame]
    exact ⟨String.singleton c, by simp [Bytes.ofText_eq]⟩

theorem isText_quote (s : String) : Bytes.IsText (quote s) := by
  have hmark : Bytes.IsText [quoteMark] := Bytes.isText_singleton (by decide)
  have hbody : Bytes.IsText ((Bytes.ofText s).flatMap escapeByte) := by
    rw [Bytes.ofText_eq, List.flatMap_assoc]
    induction s.toList with
    | nil => exact ⟨"", rfl⟩
    | cons c cs ih =>
        rw [List.flatMap_cons]
        exact (isText_escaped c).append ih
  exact (hbody.append hmark).cons (by decide)

end Json

end Keyring
