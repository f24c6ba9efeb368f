import Keyring.Proofs.Json.Grammar

namespace Keyring.Json

section Texts

variable {c : Char} {b : UInt8} {written : Bytes}

/-- How an octet is written is how the character of that octet can be written. -/
theorem Written.spellsChar (h : Written b written) (hencode : String.utf8EncodeChar c = [b])
    (hnat : b.toNat = c.toNat) : SpellsChar c written := by
  cases h with
  | short hsign h => exact .short h hnat
  | control hlt hhigh hlow =>
      have hzero : hexValue? 0x30 = some 0 := by decide
      have hsum : ((0 * 16 + 0) * 16 + b.toNat / 0x10) * 16 + b.toNat % 0x10 = c.toNat := by omega
      have hdigits := FourDigits.mk hzero hzero hhigh hlow
      rw [hsum] at hdigits
      exact .number hdigits
  | plain hquote hbackslash h =>
      have hplain : SpellsChar c (String.utf8EncodeChar c) := by
        refine .plain ?_ ?_ ?_
        · rintro rfl
          exact hquote (UInt8.toNat_inj.mp hnat)
        · rintro rfl
          exact hbackslash (UInt8.toNat_inj.mp hnat)
        · have hge : ¬ b.toNat < 0x20 := h
          omega
      rwa [hencode] at hplain

theorem spellsChar_escaped (c : Char) :
    SpellsChar c ((String.utf8EncodeChar c).flatMap escapeByte) := by
  by_cases hascii : c.val.toNat ≤ 0x7F
  · have hencode : String.utf8EncodeChar c = [UInt8.ofNat c.val.toNat] := if_pos hascii
    have hnat : (UInt8.ofNat c.val.toNat).toNat = c.toNat := by
      rw [UInt8.toNat_ofNat']
      exact Nat.mod_eq_of_lt (by omega)
    have hwritten := (written_escapeByte (UInt8.ofNat c.val.toNat)).spellsChar hencode hnat
    rwa [hencode, List.flatMap_singleton]
  · have hsame : ∀ b ∈ String.utf8EncodeChar c, escapeByte b = [b] := fun b hb =>
      escapeByte_of_le (Bytes.le_toNat_of_mem_utf8EncodeChar hascii hb)
    rw [List.flatMap_def, List.map_congr_left hsame, ← List.flatMap_def, List.flatMap_singleton']
    refine .plain ?_ ?_ ?_
    · rintro rfl
      exact hascii (by decide)
    · rintro rfl
      exact hascii (by decide)
    · have hlarge : ¬ c.toNat ≤ 0x7F := hascii
      omega

/-- What is written for a text spells it. -/
theorem spellsText_quote (s : String) : SpellsText s (quote s) := by
  have hchars : ∀ cs : List Char,
      SpellsChars cs ((cs.flatMap String.utf8EncodeChar).flatMap escapeByte) := by
    intro cs
    induction cs with
    | nil => exact .nil
    | cons c cs ih =>
        rw [List.flatMap_cons, List.flatMap_append]
        exact .cons (spellsChar_escaped c) ih
  have hs := hchars s.toList
  rw [← Bytes.ofText_eq] at hs
  exact .quoted hs

end Texts

section Trees

variable {t : Tree} {ts : List Tree} {m : String × Tree} {ms : List (String × Tree)}

theorem spells_text (s : String) : Spells (.value (.text s)) (Tree.text s).write := by
  rw [Tree.write]
  exact .text (spellsText_quote s)

theorem spells_writeItems (h : ∀ item ∈ t :: ts, Spells (.value item) item.write) :
    Spells (.items (t :: ts)) (Tree.writeItems (t :: ts)) := by
  induction ts generalizing t with
  | nil =>
      rw [Tree.writeItems]
      exact .lastItem (h t List.mem_cons_self).bareItem
  | cons next ts ih =>
      have hmore := ih fun item hitem => h item (List.mem_cons_of_mem t hitem)
      rw [Tree.writeItems]
      · exact .moreItems (h t List.mem_cons_self).bareItem hmore
      · exact List.cons_ne_nil _ _

theorem spells_list (h : ∀ t ∈ ts, Spells (.value t) t.write) :
    Spells (.value (.list ts)) (Tree.list ts).write := by
  rw [Tree.write]
  cases ts with
  | nil => exact .emptyList spaces_nil
  | cons t ts => exact .list (spells_writeItems h)

theorem spells_texts (ss : List String) : Spells (.value (.texts ss)) (Tree.texts ss).write := by
  refine spells_list fun t ht => ?_
  obtain ⟨s, -, rfl⟩ := List.mem_map.mp ht
  exact spells_text s

theorem spells_writeMembers (h : ∀ k ∈ m :: ms, Spells (.value k.2) k.2.write) :
    Spells (.members (m :: ms)) (Tree.writeMembers (m :: ms)) := by
  induction ms generalizing m with
  | nil =>
      have hm := Spells.bareMember (spellsText_quote m.1) (h m List.mem_cons_self)
      have hlast := Spells.lastMember hm
      rw [List.append_assoc, List.cons_append] at hlast
      rw [Tree.writeMembers]
      exact hlast
  | cons next ms ih =>
      have hm := Spells.bareMember (spellsText_quote m.1) (h m List.mem_cons_self)
      have hmore := Spells.moreMembers hm (ih fun k hk => h k (List.mem_cons_of_mem m hk))
      rw [List.append_assoc, List.cons_append] at hmore
      rw [Tree.writeMembers]
      · exact hmore
      · exact List.cons_ne_nil _ _

/-- What is written for an object spells it if its values are spelled by what is written for
them. -/
theorem spells_object (h : ∀ m ∈ ms, Spells (.value m.2) m.2.write) :
    Spells (.value (.object ms)) (Tree.object ms).write := by
  rw [Tree.write]
  cases ms with
  | nil => exact .emptyObject spaces_nil
  | cons m ms => exact .object (spells_writeMembers h)

/-- A value whose numbers are numbers. -/
inductive Tree.Proper : Tree → Prop
  | null : Proper .null
  | bool (b : Bool) : Proper (.bool b)
  | numeral {digits : Bytes} (h : Numeral digits) : Proper (.numeral digits)
  | text (s : String) : Proper (.text s)
  | list {ts : List Tree} (h : ∀ t ∈ ts, Proper t) : Proper (.list ts)
  | object {ms : List (String × Tree)} (h : ∀ m ∈ ms, Proper m.2) : Proper (.object ms)

/-- What is written for a value spells it. -/
theorem Tree.Proper.spells (h : t.Proper) : Spells (.value t) t.write := by
  induction h with
  | null => exact .null
  | bool b =>
      cases b with
      | true => exact .yes
      | false => exact .no
  | numeral h =>
      rw [Tree.write]
      exact .numeral h
  | text s => exact spells_text s
  | list _ ih => exact spells_list ih
  | object _ ih => exact spells_object ih

end Trees

end Keyring.Json
