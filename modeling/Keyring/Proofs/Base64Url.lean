import Keyring.Base64Url
import Keyring.Proofs.Except

namespace Keyring.Base64Url

theorem symbolAt_symbol (offset : Nat) {n : Nat} (h : n < 64) :
    symbolAt offset (symbol n) = .ok n := by
  rw [symbolAt, value?_symbol h]

theorem symbol_ne_pad {n : Nat} (h : n < 64) : symbol n ≠ pad := by
  intro heq
  have hvalue := value?_symbol h
  rw [heq] at hvalue
  cases hvalue

theorem toNat_lt_of_value? {byte : UInt8} {n : Nat} (h : value? byte = some n) :
    byte.toNat < 128 := by
  apply Nat.lt_of_not_le
  intro hge
  rw [value?] at h
  repeat rw [if_neg (by omega)] at h
  cases h

theorem lastSymbols_symbols (offset place : Nat) (ns : List Nat) (h : ∀ n ∈ ns, n < 64) :
    lastSymbols offset place none (ns.map symbol) = .ok (ns, none) := by
  induction ns generalizing place with
  | nil => rfl
  | cons n ns ih =>
      have hn : n < 64 := h n List.mem_cons_self
      have hrest := ih (place + 1) fun m hm => h m (List.mem_cons_of_mem n hm)
      rw [List.map_cons, lastSymbols, if_neg (symbol_ne_pad hn)]
      simp only [symbolAt_symbol _ hn, hrest]
      rfl

theorem quad_symbols (offset : Nat) {w x y z : Nat} (hw : w < 64) (hx : x < 64) (hy : y < 64)
    (hz : z < 64) : quad offset (symbol w) (symbol x) (symbol y) (symbol z) =
      .ok [UInt8.ofNat (w * 4 + x / 16), UInt8.ofNat (x % 16 * 16 + y / 4),
        UInt8.ofNat (y % 4 * 64 + z)] := by
  simp only [quad, symbolAt_symbol _ hw, symbolAt_symbol _ hx, symbolAt_symbol _ hy,
    symbolAt_symbol _ hz]
  rfl

theorem lastGroup_four (offset : Nat) {w x y z : Nat} (hw : w < 64) (hx : x < 64) (hy : y < 64)
    (hz : z < 64) : lastGroup offset [symbol w, symbol x, symbol y, symbol z] =
      .ok [UInt8.ofNat (w * 4 + x / 16), UInt8.ofNat (x % 16 * 16 + y / 4),
        UInt8.ofNat (y % 4 * 64 + z)] := by
  have hread := lastSymbols_symbols offset 0 [w, x, y, z] (by simp [hw, hx, hy, hz])
  simp only [List.map_cons, List.map_nil] at hread
  simp only [lastGroup, hread]
  rfl

theorem lastGroup_three (offset : Nat) {w x y : Nat} (hw : w < 64) (hx : x < 64) (hy : y < 64)
    (hloose : y % 4 = 0) : lastGroup offset [symbol w, symbol x, symbol y] =
      .ok [UInt8.ofNat (w * 4 + x / 16), UInt8.ofNat (x % 16 * 16 + y / 4)] := by
  have hread := lastSymbols_symbols offset 0 [w, x, y] (by simp [hw, hx, hy])
  simp only [List.map_cons, List.map_nil] at hread
  simp only [lastGroup, hread]
  exact if_pos hloose

theorem lastGroup_two (offset : Nat) {w x : Nat} (hw : w < 64) (hx : x < 64)
    (hloose : x % 16 = 0) : lastGroup offset [symbol w, symbol x] =
      .ok [UInt8.ofNat (w * 4 + x / 16)] := by
  have hread := lastSymbols_symbols offset 0 [w, x] (by simp [hw, hx])
  simp only [List.map_cons, List.map_nil] at hread
  simp only [lastGroup, hread]
  exact if_pos hloose

theorem firstOctet (a b : UInt8) :
    UInt8.ofNat (a.toNat / 4 * 4 + (a.toNat % 4 * 16 + b.toNat / 16) / 16) = a := by
  have hb := b.toNat_lt
  have h : a.toNat / 4 * 4 + (a.toNat % 4 * 16 + b.toNat / 16) / 16 = a.toNat := by
    omega
  rw [h, UInt8.ofNat_toNat]

theorem secondOctet (a b c : UInt8) :
    UInt8.ofNat ((a.toNat % 4 * 16 + b.toNat / 16) % 16 * 16 +
      (b.toNat % 16 * 4 + c.toNat / 64) / 4) = b := by
  have hb := b.toNat_lt
  have hc := c.toNat_lt
  have h : (a.toNat % 4 * 16 + b.toNat / 16) % 16 * 16 +
      (b.toNat % 16 * 4 + c.toNat / 64) / 4 = b.toNat := by
    omega
  rw [h, UInt8.ofNat_toNat]

theorem thirdOctet (b c : UInt8) :
    UInt8.ofNat ((b.toNat % 16 * 4 + c.toNat / 64) % 4 * 64 + c.toNat % 64) = c := by
  have hc := c.toNat_lt
  have h : (b.toNat % 16 * 4 + c.toNat / 64) % 4 * 64 + c.toNat % 64 = c.toNat := by
    omega
  rw [h, UInt8.ofNat_toNat]

theorem groups_of_length_le (offset : Nat) {group : Bytes} (h : group.length ≤ 4) :
    groups offset group = lastGroup offset group := by
  unfold groups
  split
  · simp only [List.length_cons] at h
    omega
  · rfl

theorem encode_ne_nil (a : UInt8) (b : Bytes) : encode (a :: b) ≠ [] := by
  rcases b with _ | ⟨b, _ | ⟨c, rest⟩⟩
  · exact List.cons_ne_nil _ _
  · exact List.cons_ne_nil _ _
  · exact List.cons_ne_nil _ _

theorem groups_encode (offset : Nat) (b : Bytes) : groups offset (encode b) = .ok b := by
  induction b using encode.induct generalizing offset with
  | case1 a b c rest ih =>
      have ha := a.toNat_lt
      have hb := b.toNat_lt
      have hc := c.toNat_lt
      have hw : a.toNat / 4 < 64 := by omega
      have hx : a.toNat % 4 * 16 + b.toNat / 16 < 64 := by omega
      have hy : b.toNat % 16 * 4 + c.toNat / 64 < 64 := by omega
      have hz : c.toNat % 64 < 64 := by omega
      rw [encode]
      cases hrest : encode rest with
      | nil =>
          obtain rfl : rest = [] := by
            cases rest with
            | nil => rfl
            | cons d rest => exact absurd hrest (encode_ne_nil d rest)
          rw [groups_of_length_le offset (by simp), lastGroup_four offset hw hx hy hz, firstOctet,
            secondOctet, thirdOctet]
      | cons e more =>
          have htail := ih (offset + 4)
          rw [hrest] at htail
          simp only [groups, quad_symbols offset hw hx hy hz, htail, firstOctet, secondOctet,
            thirdOctet]
          rfl
  | case2 a b =>
      have ha := a.toNat_lt
      have hb := b.toNat_lt
      have hsecond := secondOctet a b 0
      simp only [UInt8.toNat_zero, Nat.zero_div, Nat.add_zero] at hsecond
      rw [encode, groups_of_length_le offset (by simp),
        lastGroup_three offset (by omega) (by omega) (by omega) (by omega), firstOctet, hsecond]
  | case3 a =>
      have ha := a.toNat_lt
      have hfirst := firstOctet a 0
      simp only [UInt8.toNat_zero, Nat.zero_div, Nat.add_zero] at hfirst
      rw [encode, groups_of_length_le offset (by simp),
        lastGroup_two offset (by omega) (by omega) (by omega), hfirst]
  | case4 => rfl

theorem value?_of_mem_encode {b : Bytes} {c : UInt8} (h : c ∈ encode b) :
    ∃ n, value? c = some n := by
  induction b using encode.induct with
  | case1 x y z rest ih =>
      have hx := x.toNat_lt
      have hy := y.toNat_lt
      have hz := z.toNat_lt
      simp only [encode, List.mem_cons] at h
      rcases h with rfl | rfl | rfl | rfl | hrest
      · exact ⟨_, value?_symbol (by omega)⟩
      · exact ⟨_, value?_symbol (by omega)⟩
      · exact ⟨_, value?_symbol (by omega)⟩
      · exact ⟨_, value?_symbol (by omega)⟩
      · exact ih hrest
  | case2 x y =>
      have hx := x.toNat_lt
      have hy := y.toNat_lt
      simp only [encode, List.mem_cons, List.not_mem_nil, or_false] at h
      rcases h with rfl | rfl | rfl
      · exact ⟨_, value?_symbol (by omega)⟩
      · exact ⟨_, value?_symbol (by omega)⟩
      · exact ⟨_, value?_symbol (by omega)⟩
  | case3 x =>
      have hx := x.toNat_lt
      simp only [encode, List.mem_cons, List.not_mem_nil, or_false] at h
      rcases h with rfl | rfl
      · exact ⟨_, value?_symbol (by omega)⟩
      · exact ⟨_, value?_symbol (by omega)⟩
  | case4 => cases h

theorem strayEnd?_encode (b : Bytes) : strayEnd? (encode b) = none := by
  unfold strayEnd?
  split
  · cases hlast : (encode b).getLast? with
    | none => rfl
    | some c =>
        obtain ⟨n, hn⟩ := value?_of_mem_encode (List.mem_of_getLast? hlast)
        simp [hn]
  · rfl

/-- What was encoded is read back. -/
theorem decode_encode (b : Bytes) : decode (encode b) = .ok b := by
  rw [decode, strayEnd?_encode]
  exact groups_encode 0 b

theorem symbol_of_symbolAt {offset n : Nat} {byte : UInt8} (h : symbolAt offset byte = .ok n) :
    symbol n = byte ∧ n < 64 := by
  unfold symbolAt at h
  split at h
  · rename_i found hvalue
    cases h
    exact ⟨symbol_of_value? hvalue, value?_lt hvalue⟩
  · cases h

theorem toNat_ofNat {n : Nat} (h : n < 256) : (UInt8.ofNat n).toNat = n := by
  rw [UInt8.toNat_ofNat', Nat.mod_eq_of_lt h]

theorem encode_three {w x y z : Nat} (hw : w < 64) (hx : x < 64) (hy : y < 64) (hz : z < 64)
    (rest : Bytes) :
    encode (UInt8.ofNat (w * 4 + x / 16) :: UInt8.ofNat (x % 16 * 16 + y / 4) ::
      UInt8.ofNat (y % 4 * 64 + z) :: rest) =
      symbol w :: symbol x :: symbol y :: symbol z :: encode rest := by
  have hfirst : (w * 4 + x / 16) / 4 = w := by omega
  have hsecond : (w * 4 + x / 16) % 4 * 16 + (x % 16 * 16 + y / 4) / 16 = x := by omega
  have hthird : (x % 16 * 16 + y / 4) % 16 * 4 + (y % 4 * 64 + z) / 64 = y := by omega
  have hfourth : (y % 4 * 64 + z) % 64 = z := by omega
  rw [encode, toNat_ofNat (by omega), toNat_ofNat (by omega), toNat_ofNat (by omega), hfirst,
    hsecond, hthird, hfourth]

theorem encode_two {w x y : Nat} (hw : w < 64) (hx : x < 64) (hy : y < 64) (hloose : y % 4 = 0) :
    encode [UInt8.ofNat (w * 4 + x / 16), UInt8.ofNat (x % 16 * 16 + y / 4)] =
      [symbol w, symbol x, symbol y] := by
  have hfirst : (w * 4 + x / 16) / 4 = w := by omega
  have hsecond : (w * 4 + x / 16) % 4 * 16 + (x % 16 * 16 + y / 4) / 16 = x := by omega
  have hthird : (x % 16 * 16 + y / 4) % 16 * 4 = y := by omega
  rw [encode, toNat_ofNat (by omega), toNat_ofNat (by omega), hfirst, hsecond, hthird]

theorem encode_one {w x : Nat} (hw : w < 64) (hx : x < 64) (hloose : x % 16 = 0) :
    encode [UInt8.ofNat (w * 4 + x / 16)] = [symbol w, symbol x] := by
  have hfirst : (w * 4 + x / 16) / 4 = w := by omega
  have hsecond : (w * 4 + x / 16) % 4 * 16 = x := by omega
  rw [encode, toNat_ofNat (by omega), hfirst, hsecond]

theorem of_lastSymbols {offset place : Nat} {padding : Option Nat} {group : Bytes}
    {values : List Nat} (h : lastSymbols offset place padding group = .ok (values, none)) :
    padding = none ∧ values.map symbol = group ∧ ∀ n ∈ values, n < 64 := by
  induction group generalizing place padding values with
  | nil =>
      cases h
      exact ⟨rfl, rfl, by simp⟩
  | cons byte group ih =>
      unfold lastSymbols at h
      split at h
      · split at h
        · cases h
        · -- Padding that began is not forgotten.
          have hnone := (ih h).1
          cases padding <;> cases hnone
      · cases padding with
        | some first => cases h
        | none =>
            cases hsymbol : symbolAt (offset + place) byte with
            | error fault => simp [hsymbol, bind, Except.bind] at h
            | ok n =>
                cases hmore : lastSymbols offset (place + 1) none group with
                | error fault => simp [hsymbol, hmore, bind, Except.bind] at h
                | ok more =>
                    obtain ⟨rest, padding⟩ := more
                    simp only [hsymbol, hmore, bind, Except.bind, pure, Except.pure,
                      Except.ok.injEq, Prod.mk.injEq] at h
                    obtain ⟨rfl, rfl⟩ := h
                    obtain ⟨-, hmap, hlt⟩ := ih hmore
                    obtain ⟨hbyte, hn⟩ := symbol_of_symbolAt hsymbol
                    refine ⟨rfl, by rw [List.map_cons, hbyte, hmap], ?_⟩
                    rintro m (_ | ⟨_, hm⟩)
                    · exact hn
                    · exact hlt m hm

theorem encode_of_quad {offset : Nat} {a b c d : UInt8} {octets : Bytes}
    (h : quad offset a b c d = .ok octets) (rest : Bytes) :
    encode (octets ++ rest) = a :: b :: c :: d :: encode rest := by
  obtain ⟨w, hw, h⟩ := Except.bind_eq_ok.mp h
  obtain ⟨x, hx, h⟩ := Except.bind_eq_ok.mp h
  obtain ⟨y, hy, h⟩ := Except.bind_eq_ok.mp h
  obtain ⟨z, hz, h⟩ := Except.bind_eq_ok.mp h
  cases h
  obtain ⟨rfl, hwlt⟩ := symbol_of_symbolAt hw
  obtain ⟨rfl, hxlt⟩ := symbol_of_symbolAt hx
  obtain ⟨rfl, hylt⟩ := symbol_of_symbolAt hy
  obtain ⟨rfl, hzlt⟩ := symbol_of_symbolAt hz
  exact encode_three hwlt hxlt hylt hzlt rest

/-- The last group is what its octets are written as: no padding, no loose bits. -/
theorem encode_of_lastGroup {offset : Nat} {group b : Bytes} (hlength : group.length ≤ 4)
    (h : lastGroup offset group = .ok b) : encode b = group := by
  obtain ⟨⟨values, padding⟩, hread, h⟩ := Except.bind_eq_ok.mp h
  rcases values with _ | ⟨w, _ | ⟨x, more⟩⟩
  · dsimp only at h
    split at h
    · rename_i hempty
      cases h
      exact (List.isEmpty_iff.mp hempty).symm
    · cases h
  · cases h
  · cases padding with
    | some first => cases h
    | none =>
        obtain ⟨-, rfl, hlt⟩ := of_lastSymbols hread
        have hw : w < 64 := hlt w (by simp)
        have hx : x < 64 := hlt x (by simp)
        simp only [Option.isSome_none, Bool.false_eq_true, if_false] at h
        rcases more with _ | ⟨y, _ | ⟨z, more⟩⟩
        · dsimp only at h
          split at h
          · rename_i hloose
            cases h
            exact encode_one hw hx hloose
          · cases h
        · have hy : y < 64 := hlt y (by simp)
          dsimp only at h
          split at h
          · rename_i hloose
            cases h
            exact encode_two hw hx hy hloose
          · cases h
        · have hy : y < 64 := hlt y (by simp)
          have hz : z < 64 := hlt z (by simp)
          obtain rfl : more = [] := by
            cases more with
            | nil => rfl
            | cons next more =>
                simp only [List.map_cons, List.length_cons] at hlength
                omega
          cases h
          exact encode_three hw hx hy hz []

theorem encode_of_groups {offset : Nat} {text b : Bytes} (h : groups offset text = .ok b) :
    encode b = text := by
  induction offset, text using groups.induct generalizing b with
  | case1 offset a b' c d e rest ih =>
      rw [groups] at h
      obtain ⟨octets, hquad, h⟩ := Except.bind_eq_ok.mp h
      obtain ⟨more, hmore, h⟩ := Except.bind_eq_ok.mp h
      cases h
      rw [encode_of_quad hquad, ih hmore]
  | case2 offset group hshort =>
      have hlength : group.length ≤ 4 := by
        rcases group with _ | ⟨a, _ | ⟨b', _ | ⟨c, _ | ⟨d, _ | ⟨e, rest⟩⟩⟩⟩⟩
        · simp
        · simp
        · simp
        · simp
        · simp
        · exact absurd rfl (hshort a b' c d e rest)
      rw [groups_of_length_le offset hlength] at h
      exact encode_of_lastGroup hlength h

/-- What is read is written as it stood: octets have one text only. -/
theorem encode_of_decode {text b : Bytes} (h : decode text = .ok b) : encode b = text := by
  unfold decode at h
  split at h
  · cases h
  · exact encode_of_groups h

theorem decode_eq_ok_iff {text b : Bytes} : decode text = .ok b ↔ encode b = text :=
  ⟨encode_of_decode, fun h => h ▸ decode_encode b⟩

theorem ofText_encodeText (b : Bytes) : Bytes.ofText (encodeText b) = encode b := by
  refine Bytes.ofText_toLatin fun c hc => ?_
  obtain ⟨n, hn⟩ := value?_of_mem_encode hc
  exact toNat_lt_of_value? hn

theorem decode_encodeText (b : Bytes) : decode (Bytes.ofText (encodeText b)) = .ok b := by
  exact decode_eq_ok_iff.mpr (ofText_encodeText b).symm

theorem eq_encodeText_of_decode {text : String} {b : Bytes}
    (h : decode (Bytes.ofText text) = .ok b) : text = encodeText b :=
  Bytes.ofText_injective ((decode_eq_ok_iff.mp h).symm.trans (ofText_encodeText b).symm)

end Keyring.Base64Url
