import Keyring.Generator
import Keyring.Proofs.Pkcs8

namespace Keyring.Generator

theorem ofNat_toNat_add_mod (start : UInt8) (n : Nat) :
    UInt8.ofNat ((start.toNat + n) % 256) = start + UInt8.ofNat n := by
  have hwrap : UInt8.ofNat ((start.toNat + n) % 256) = UInt8.ofNat (start.toNat + n) :=
    UInt8.ofNat_mod_size
  rw [hwrap, UInt8.ofNat_add, UInt8.ofNat_toNat]

theorem ofNat_succ_ne_zero {left : Nat} (h : left + 1 < UInt32.size) :
    UInt32.ofNat (left + 1) ≠ 0 := by
  intro hzero
  have hnat := congrArg UInt32.toNat hzero
  rw [UInt32.toNat_ofNat_of_lt' h] at hnat
  cases hnat

theorem ofNat_succ_sub_one (left : Nat) : UInt32.ofNat (left + 1) - 1 = UInt32.ofNat left := by
  rw [UInt32.ofNat_add]
  exact UInt32.add_sub_cancel _ _

variable [Scheme]

/-- A generator after so many calls. -/
def after (g : Generator) : Nat → Generator
  | 0 => g
  | n + 1 => (g.after n).draw.2

/-- The answer to a call after so many others. -/
def answer (g : Generator) (n : Nat) : Draw := (g.after n).draw.1

theorem after_numbered (start : UInt8) (n : Nat) :
    (numbered start).after n = .numbered (start + UInt8.ofNat n) := by
  induction n with
  | zero => simp [after]
  | succ n ih =>
      rw [after, ih, draw, UInt8.ofNat_add, ← UInt8.add_assoc]
      rfl

/-- The call after `n` others: as long as failures are left it takes one of them and no number, and
once there are none it takes a number and leaves none. -/
theorem draw_failing (failures : UInt32) (start : UInt8) (n : Nat) :
    draw (.failing (UInt32.ofNat (failures.toNat - n))
        (start + UInt8.ofNat (n - failures.toNat))) =
      (if n < failures.toNat then .failed (.crypto "entropy source exhausted")
        else .key (.numbered (start + UInt8.ofNat (n - failures.toNat))),
        .failing (UInt32.ofNat (failures.toNat - (n + 1)))
          (start + UInt8.ofNat (n + 1 - failures.toNat))) := by
  by_cases hleft : n < failures.toNat
  · obtain ⟨left, hcount⟩ := Nat.exists_eq_add_of_lt hleft
    have hfits : left + 1 < UInt32.size := by
      have hsize : failures.toNat < UInt32.size := failures.toNat_lt
      omega
    have hbefore : failures.toNat - n = left + 1 := by omega
    have hafter : failures.toNat - (n + 1) = left := by omega
    have hunused : n + 1 - failures.toNat = n - failures.toNat := by omega
    rw [if_pos hleft, hbefore, hafter, hunused, draw, if_neg (ofNat_succ_ne_zero hfits),
      ofNat_succ_sub_one]
  · have hbefore : failures.toNat - n = 0 := by omega
    have hafter : failures.toNat - (n + 1) = 0 := by omega
    have hused : n + 1 - failures.toNat = n - failures.toNat + 1 := by omega
    rw [if_neg hleft, hbefore, hafter, hused, UInt8.ofNat_add, ← UInt8.add_assoc]
    rfl

theorem after_failing (failures : UInt32) (start : UInt8) (n : Nat) :
    (failing failures start).after n =
      .failing (UInt32.ofNat (failures.toNat - n))
        (start + UInt8.ofNat (n - failures.toNat)) := by
  induction n with
  | zero => simp [after]
  | succ n ih => rw [after, ih, draw_failing]

/-- A document of 48 octets loads for each number. The numbers of the keys that a generator gives
start anew after the last one. One that fails first fails as often as it was told, with one error;
until then it uses up no number, and from then on each call gives the next key. -/
theorem keys_in_order :
    (∀ number : UInt8, let document := Pkcs8.preamble ++ (Seed.numbered number).bytes
      document.length = 48 ∧ SigningKey.load document = .ok (.numbered number)) ∧
    (∀ (start : UInt8) (n : Nat), (numbered start).answer n =
      .key (.numbered (UInt8.ofNat ((start.toNat + n) % 256)))) ∧
    ∀ (failures : UInt32) (n : Nat),
      let number := UInt8.ofNat ((1 + (n - failures.toNat)) % 256)
      (failingFirst failures).after n =
        .failing (UInt32.ofNat (failures.toNat - n)) number ∧
      (failingFirst failures).answer n =
        if n < failures.toNat then .failed (.crypto "entropy source exhausted")
        else .key (.numbered number) := by
  refine ⟨?_, ?_, ?_⟩
  · intro number document
    refine ⟨?_, ?_⟩
    · rw [List.length_append, (Seed.numbered number).length_bytes]
      rfl
    · have hdocument : document = Pkcs8.write (Seed.numbered number) :=
        (Pkcs8.write_eq (Seed.numbered number)).symm
      rw [hdocument]
      exact SigningKey.load_write (Seed.numbered number)
  · intro start n
    rw [answer, after_numbered, ofNat_toNat_add_mod]
    rfl
  · intro failures n number
    have hnumber : number = first + UInt8.ofNat (n - failures.toNat) :=
      ofNat_toNat_add_mod first (n - failures.toNat)
    have hafter := after_failing failures first n
    rw [hnumber]
    refine ⟨hafter, ?_⟩
    rw [answer, failingFirst, hafter, draw_failing]

/-- After the last number comes the first again. -/
example : (numbered 255).answer 1 = .key (.numbered 0) := rfl

end Keyring.Generator
