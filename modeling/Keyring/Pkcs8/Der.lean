import Keyring.Bytes

namespace Keyring.Der

/-- A length: one octet below 128, or the shortest of two longer forms. -/
def length? : Bytes → Option (Nat × Bytes)
  | 0x81 :: n :: rest => if 0x80 ≤ n then some (n.toNat, rest) else none
  | 0x82 :: high :: low :: rest =>
      if high = 0 then none else some (high.toNat * 256 + low.toNat, rest)
  | n :: rest => if n < 0x80 then some (n.toNat, rest) else none
  | [] => none

/-- The first element: its tag, its content, and what follows it. Tags of more than one octet are
not read. -/
def element? : Bytes → Option (UInt8 × Bytes × Bytes)
  | [] => none
  | tag :: rest =>
      if tag % 0x20 = 0x1F then none
      else
        match length? rest with
        | none => none
        | some (n, rest) =>
            if n ≤ rest.length then some (tag, rest.take n, rest.drop n) else none

def expect? (tag : UInt8) (text : Bytes) : Option (Bytes × Bytes) :=
  match element? text with
  | some (found, content, rest) => if found = tag then some (content, rest) else none
  | none => none

def only? (tag : UInt8) (text : Bytes) : Option Bytes :=
  match expect? tag text with
  | some (content, []) => some content
  | _ => none

def wholeBits? : Bytes → Option Bytes
  | 0 :: bits => some bits
  | _ => none

/-- An integer from 0 to 255 in its shortest form, and what follows it. -/
def smallInteger? (text : Bytes) : Option (Nat × Bytes) :=
  match expect? 0x02 text with
  | some ([n], rest) => if n < 0x80 then some (n.toNat, rest) else none
  | some ([0, n], rest) => if 0x80 ≤ n then some (n.toNat, rest) else none
  | _ => none

def write (tag : UInt8) (content : Bytes) : Bytes := tag :: UInt8.ofNat content.length :: content

theorem length?_short {n : Nat} (h : n < 0x80) (rest : Bytes) :
    length? (UInt8.ofNat n :: rest) = some (n, rest) := by
  have hbyte : (UInt8.ofNat n).toNat = n := by simp; omega
  have h81 : UInt8.ofNat n ≠ 0x81 := fun he => by
    have := congrArg UInt8.toNat he
    rw [hbyte] at this
    simp at this
    omega
  have h82 : UInt8.ofNat n ≠ 0x82 := fun he => by
    have := congrArg UInt8.toNat he
    rw [hbyte] at this
    simp at this
    omega
  have hlt : UInt8.ofNat n < 0x80 := by
    rw [UInt8.lt_iff_toNat_lt, hbyte]
    simpa using h
  unfold length?
  split
  · rename_i heq
    exact absurd (List.cons.inj heq).1 h81
  · rename_i heq
    exact absurd (List.cons.inj heq).1 h82
  · rename_i heq
    obtain ⟨rfl, rfl⟩ := List.cons.inj heq
    rw [if_pos hlt, hbyte]
  · rename_i heq
    cases heq

theorem expect?_write (tag : UInt8) (content : Bytes) (htag : tag % 0x20 ≠ 0x1F)
    (h : content.length < 0x80) (rest : Bytes) :
    expect? tag (write tag content ++ rest) = some (content, rest) := by
  simp [expect?, write, element?, htag, length?_short h]

theorem only?_write (tag : UInt8) (content : Bytes) (htag : tag % 0x20 ≠ 0x1F)
    (h : content.length < 0x80) : only? tag (write tag content) = some content := by
  have := expect?_write tag content htag h []
  rw [List.append_nil] at this
  simp [only?, this]

end Keyring.Der
