import Keyring.Pkcs8.Der

namespace Keyring.Der

/-- The one text of a length below 65536: an octet, or one or two octets behind another that counts
them. -/
inductive Length : Nat → Bytes → Prop
  | short {n : UInt8} (h : n < 0x80) : Length n.toNat [n]
  | octet {n : UInt8} (h : 0x80 ≤ n) : Length n.toNat [0x81, n]
  | pair {high : UInt8} (h : high ≠ 0) (low : UInt8) :
      Length (high.toNat * 256 + low.toNat) [0x82, high, low]

/-- The text of an element: its tag, how long its content is, and the content. -/
inductive Element (tag : UInt8) (content : Bytes) : Bytes → Prop
  | mk {length : Bytes} (h : Length content.length length) :
      Element tag content (tag :: (length ++ content))

theorem length?_eq_some_iff {text rest : Bytes} {n : Nat} :
    length? text = some (n, rest) ↔ ∃ length, Length n length ∧ text = length ++ rest := by
  constructor
  · intro h
    unfold length? at h
    split at h
    · split at h
      · rename_i hlong
        cases h
        exact ⟨_, .octet hlong, rfl⟩
      · cases h
    · split at h
      · cases h
      · rename_i hhigh
        cases h
        exact ⟨_, .pair hhigh _, rfl⟩
    · split at h
      · rename_i hshort
        cases h
        exact ⟨_, .short hshort, rfl⟩
      · cases h
    · cases h
  · rintro ⟨length, h, rfl⟩
    cases h with
    | short h =>
        have := length?_short (UInt8.lt_iff_toNat_lt.mp h) rest
        rwa [UInt8.ofNat_toNat] at this
    | octet h => exact if_pos h
    | pair h low => exact if_neg h

theorem element?_eq_some_iff {tag : UInt8} {text content rest : Bytes} :
    element? text = some (tag, content, rest) ↔
      tag % 0x20 ≠ 0x1F ∧ ∃ element, Element tag content element ∧ text = element ++ rest := by
  constructor
  · intro h
    cases text with
    | nil => cases h
    | cons first text =>
        rw [element?] at h
        split at h
        · cases h
        · rename_i htag
          cases hlength : length? text with
          | none => simp [hlength] at h
          | some found =>
              obtain ⟨n, more⟩ := found
              simp only [hlength] at h
              split at h
              · rename_i hle
                cases h
                obtain ⟨length, hspelt, rfl⟩ := length?_eq_some_iff.mp hlength
                have hcontent : (more.take n).length = n := List.length_take_of_le hle
                have helement : Element tag (more.take n) (tag :: (length ++ more.take n)) :=
                  .mk (hcontent.symm ▸ hspelt)
                refine ⟨htag, _, helement, ?_⟩
                rw [List.cons_append, List.append_assoc, List.take_append_drop]
              · cases h
  · rintro ⟨htag, _, ⟨hspelt⟩, rfl⟩
    rename_i length
    have hlength : length? (length ++ (content ++ rest)) = some (content.length, content ++ rest) :=
      length?_eq_some_iff.mpr ⟨length, hspelt, rfl⟩
    rw [List.cons_append, List.append_assoc]
    simp [element?, htag, hlength]

section Tagged

variable {tag : UInt8} {text content rest : Bytes}

theorem expect?_eq_some_iff (htag : tag % 0x20 ≠ 0x1F) :
    expect? tag text = some (content, rest) ↔
      ∃ element, Element tag content element ∧ text = element ++ rest := by
  have hfound : expect? tag text = some (content, rest) ↔
      element? text = some (tag, content, rest) := by
    unfold expect?
    split
    · rename_i found _ _ helement
      rw [helement]
      by_cases hsame : found = tag <;> simp [hsame]
    · rename_i helement
      simp [helement]
  rw [hfound, element?_eq_some_iff]
  exact and_iff_right htag

theorem only?_eq_some_iff (htag : tag % 0x20 ≠ 0x1F) :
    only? tag text = some content ↔ Element tag content text := by
  have hfound : only? tag text = some content ↔ expect? tag text = some (content, []) := by
    unfold only?
    split
    · rename_i helement
      simp [helement]
    · rename_i hother
      exact iff_of_false (Option.some_ne_none _).symm fun helement => hother _ helement
  rw [hfound, expect?_eq_some_iff htag]
  simp only [List.append_nil, exists_eq_right']

end Tagged

theorem wholeBits?_eq_some_iff {content bits : Bytes} :
    wholeBits? content = some bits ↔ content = 0 :: bits := by
  unfold wholeBits?
  split
  · simp
  · rename_i hother
    exact iff_of_false (Option.some_ne_none _).symm fun hcontent => hother _ hcontent

/-- Integers below 128 have one octet. -/
theorem smallInteger?_eq_some_iff {n : UInt8} (hn : n < 0x80) {text rest : Bytes} :
    smallInteger? text = some (n.toNat, rest) ↔
      ∃ element, Element 0x02 [n] element ∧ text = element ++ rest := by
  rw [← expect?_eq_some_iff (by decide)]
  unfold smallInteger?
  split
  · rename_i m more helement
    simp only [helement, Option.some.injEq, Prod.mk.injEq, List.cons.injEq, and_true]
    by_cases hm : m < 0x80
    · simp [hm, UInt8.toNat_inj]
    · rw [if_neg hm]
      refine iff_of_false (Option.some_ne_none _).symm fun heq => ?_
      exact hm (heq.1 ▸ hn)
  · rename_i m more helement
    -- A second octet is for integers from 128 on.
    refine iff_of_false ?_ (by simp [helement])
    split
    · rename_i hm
      simp only [Option.some.injEq, Prod.mk.injEq, UInt8.toNat_inj]
      rintro ⟨rfl, -⟩
      exact UInt8.not_lt.mpr hm hn
    · exact (Option.some_ne_none _).symm
  · rename_i hsingle hdouble
    exact iff_of_false (Option.some_ne_none _).symm fun helement => hsingle _ _ helement

end Keyring.Der
