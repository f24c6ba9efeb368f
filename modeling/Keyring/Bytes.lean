namespace Keyring

abbrev Bytes := List UInt8

namespace Bytes

def ofText (s : String) : Bytes := s.toUTF8.data.toList

def toText? (b : Bytes) : Option String := String.fromUTF8? ⟨b.toArray⟩

theorem ofText_injective {s t : String} (h : ofText s = ofText t) : s = t := by
  apply String.toByteArray_inj.mp
  apply ByteArray.ext
  exact Array.toList_inj.mp h

theorem toText?_ofText (s : String) : toText? (ofText s) = some s := by
  have h : (⟨(ofText s).toArray⟩ : ByteArray) = s.toByteArray := by
    simp [ofText]
  rw [toText?, h, String.fromUTF8?, dif_pos s.isValidUTF8]
  rfl

def toNatLE : Bytes → Nat
  | [] => 0
  | b :: rest => b.toNat + 256 * toNatLE rest

/-- `ofNatLE k n` writes `n` modulo `256 ^ k` in `k` octets, least significant first. -/
def ofNatLE : Nat → Nat → Bytes
  | 0, _ => []
  | k + 1, n => UInt8.ofNat n :: ofNatLE k (n / 256)

@[simp]
theorem length_ofNatLE (k n : Nat) : (ofNatLE k n).length = k := by
  induction k generalizing n with
  | zero => rfl
  | succ k ih => simp [ofNatLE, ih]

/-- `ofNatBE k n` writes `n` modulo `256 ^ k` in `k` octets, most significant first. -/
def ofNatBE (k n : Nat) : Bytes := (ofNatLE k n).reverse

@[simp]
theorem length_ofNatBE (k n : Nat) : (ofNatBE k n).length = k := by
  simp [ofNatBE]

def toLatin (b : Bytes) : String := String.ofList (b.map fun c => Char.ofNat c.toNat)

theorem utf8EncodeChar_ofNat {c : UInt8} (h : c.toNat < 128) :
    String.utf8EncodeChar (Char.ofNat c.toNat) = [c] := by
  have hchar : (Char.ofNat c.toNat).val.toNat = c.toNat := by
    rw [Char.ofNat, dif_pos (Or.inl (by omega))]
    rfl
  have hle : c.toNat ≤ 0x7f := by
    omega
  simp [String.utf8EncodeChar, hchar, hle]

theorem ofText_toLatin {b : Bytes} (h : ∀ c ∈ b, c.toNat < 128) : ofText b.toLatin = b := by
  have hchars : (b.map fun c => Char.ofNat c.toNat).flatMap String.utf8EncodeChar = b := by
    induction b with
    | nil => rfl
    | cons c b ih =>
        rw [List.map_cons, List.flatMap_cons, utf8EncodeChar_ofNat (h c List.mem_cons_self),
          ih fun d hd => h d (List.mem_cons_of_mem c hd)]
        rfl
  simp [ofText, toLatin, List.utf8Encode, hchars]

end Bytes

end Keyring
