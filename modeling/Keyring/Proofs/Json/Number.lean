import Keyring.Json.Value
import Keyring.Proofs.Json.Text

namespace Keyring.Json

/-- A number that stands before this ends there. -/
def EndsNumber (rest : Bytes) : Prop :=
  ∀ b ∈ rest.head?, isDigit b = false ∧ b ≠ 0x2E ∧ b ≠ 0x65 ∧ b ≠ 0x45

theorem endsNumber_cons {b : UInt8} (h : b = comma ∨ b = closeList ∨ b = closeObject)
    (rest : Bytes) : EndsNumber (b :: rest) := by
  intro c hc
  obtain rfl : b = c := Option.some.inj hc
  rcases h with rfl | rfl | rfl <;> decide

theorem endsNumber_comma (rest : Bytes) : EndsNumber (comma :: rest) :=
  endsNumber_cons (Or.inl rfl) rest

theorem endsNumber_closeList (rest : Bytes) : EndsNumber (closeList :: rest) :=
  endsNumber_cons (Or.inr (Or.inl rfl)) rest

theorem endsNumber_closeObject (rest : Bytes) : EndsNumber (closeObject :: rest) :=
  endsNumber_cons (Or.inr (Or.inr rfl)) rest

theorem afterWhole_of_ends (negative : Bool) (n : Nat) {rest : Bytes} (h : EndsNumber rest) :
    afterWhole negative n rest = .ok (.ofWhole negative n, rest) := by
  unfold afterWhole
  split
  · exact absurd rfl (h _ rfl).2.1
  · exact absurd rfl (h _ rfl).2.2.1
  · exact absurd rfl (h _ rfl).2.2.2
  · rfl

theorem readWhole_of_ends (negative : Bool) (n : Nat) {rest : Bytes} (h : EndsNumber rest) :
    readWhole negative n rest = .ok (.ofWhole negative n, rest) := by
  cases rest with
  | nil => exact afterWhole_of_ends negative n h
  | cons b rest =>
      rw [readWhole, if_neg (by rw [(h b rfl).1]; decide)]
      exact afterWhole_of_ends negative n h

def digit (n : Nat) : UInt8 := UInt8.ofNat (n + 0x30)

theorem isDigit_digit {n : Nat} (h : n < 10) : isDigit (digit n) = true := by
  have hall : ∀ i : Fin 10, isDigit (digit i) = true := by decide
  exact hall ⟨n, h⟩

theorem toNat_digit {n : Nat} (h : n < 10) : (digit n).toNat = n + 0x30 := by
  rw [digit, UInt8.toNat_ofNat']
  omega

theorem utf8EncodeChar_digitChar {n : Nat} (h : n < 10) :
    String.utf8EncodeChar (Nat.digitChar n) = [digit n] := by
  have hall : ∀ i : Fin 10, String.utf8EncodeChar (Nat.digitChar i) = [digit i] := by decide
  exact hall ⟨n, h⟩

theorem ofText_repr (n : Nat) : Bytes.ofText n.repr =
    if n < 10 then [digit n] else Bytes.ofText (n / 10).repr ++ [digit (n % 10)] := by
  simp only [Bytes.ofText_eq, Nat.repr_eq_ofList_toDigits, String.toList_ofList]
  split
  · rename_i h
    rw [Nat.toDigits_of_lt_base h, List.flatMap_singleton, utf8EncodeChar_digitChar h]
  · rename_i h
    rw [Nat.toDigits_of_base_le (by decide) (Nat.le_of_not_lt h), List.flatMap_append,
      List.flatMap_singleton, utf8EncodeChar_digitChar (Nat.mod_lt _ (by decide))]

theorem readWhole_digit (negative : Bool) {n d : Nat} (hd : d < 10)
    (hle : n * 10 + d ≤ largestSignificand) (rest : Bytes) :
    readWhole negative n (digit d :: rest) = readWhole negative (n * 10 + d) rest := by
  have hvalue : (digit d).toNat - 0x30 = d := by
    rw [toNat_digit hd]
    omega
  rw [readWhole, if_pos (isDigit_digit hd), hvalue, if_pos hle]

/-- The digits of a number are read to that number, the first of them apart. Only zero begins with
a zero. -/
theorem exists_readWhole_repr (negative : Bool) (n : Nat) (h : n ≤ largestSignificand) :
    ∃ first digits, first < 10 ∧ Bytes.ofText n.repr = digit first :: digits ∧
      (first = 0 → n = 0 ∧ digits = []) ∧
      ∀ rest, readWhole negative first (digits ++ rest) = readWhole negative n rest := by
  induction n using Nat.strongRecOn with
  | ind n ih =>
      rw [ofText_repr]
      split
      · rename_i hlt
        exact ⟨n, [], hlt, rfl, fun hzero => ⟨hzero, rfl⟩, fun rest => rfl⟩
      · rename_i hge
        obtain ⟨first, digits, hfirst, hdigits, hzero, hread⟩ := ih (n / 10) (by omega) (by omega)
        have hsplit : n / 10 * 10 + n % 10 = n := by omega
        refine ⟨first, digits ++ [digit (n % 10)], hfirst, by rw [hdigits]; rfl, ?_, ?_⟩
        · intro hfirst
          have := (hzero hfirst).1
          omega
        · intro rest
          rw [List.append_assoc, List.singleton_append, hread,
            readWhole_digit negative (Nat.mod_lt _ (by decide)) (by rw [hsplit]; exact h), hsplit]

theorem readNumber_zero (negative : Bool) {rest : Bytes} (h : EndsNumber rest) :
    readNumber negative (digit 0 :: rest) = .ok (.ofWhole negative 0, rest) := by
  unfold readNumber
  cases rest with
  | nil => exact afterWhole_of_ends negative 0 h
  | cons c rest =>
      have hdigit : isDigit c = false := (h c rfl).1
      simp only [if_pos (show digit 0 = 0x30 from rfl), hdigit, Bool.false_eq_true, if_false]
      exact afterWhole_of_ends negative 0 h

theorem readNumber_digit (negative : Bool) {d : Nat} (hd : d < 10) (hne : d ≠ 0) (rest : Bytes) :
    readNumber negative (digit d :: rest) = readWhole negative d rest := by
  have hvalue := toNat_digit hd
  have hzero : digit d ≠ 0x30 := by
    intro heq
    rw [heq] at hvalue
    have h30 : (0x30 : UInt8).toNat = 0x30 := rfl
    omega
  have hback : (digit d).toNat - 0x30 = d := by omega
  simp only [readNumber, if_neg hzero, if_pos (isDigit_digit hd), hback]

theorem readNumber_repr (negative : Bool) {n : Nat} (h : n ≤ largestSignificand) {rest : Bytes}
    (hrest : EndsNumber rest) :
    readNumber negative (Bytes.ofText n.repr ++ rest) = .ok (.ofWhole negative n, rest) := by
  obtain ⟨first, digits, hfirst, hdigits, hzero, hread⟩ := exists_readWhole_repr negative n h
  rw [hdigits, List.cons_append]
  by_cases hne : first = 0
  · obtain ⟨rfl, rfl⟩ := hzero hne
    rw [hne]
    exact readNumber_zero negative hrest
  · rw [readNumber_digit negative hfirst hne, hread, readWhole_of_ends negative n hrest]

/-- The whole numbers of 64 bits, with a sign or without. -/
def IsWord (i : Int) : Prop := -(Nat.pow 2 63 : Nat) ≤ i ∧ i < (Nat.pow 2 64 : Nat)

theorem wholeBytes_negSucc (n : Nat) :
    wholeBytes (Int.negSucc n) = minusSign :: Bytes.ofText (n + 1).repr := by
  show Bytes.ofText ("-" ++ (n + 1).repr) = _
  rw [Bytes.ofText_append]
  rfl

theorem ofWhole_true_succ {n : Nat} (h : n + 1 ≤ Nat.pow 2 63) :
    Number.ofWhole true (n + 1) = .whole (Int.negSucc n) := by
  have hnot : ¬ (n + 1 = 0 ∨ Nat.pow 2 63 < n + 1) := by omega
  simp only [Number.ofWhole, if_pos, if_neg hnot]
  rfl

end Keyring.Json
