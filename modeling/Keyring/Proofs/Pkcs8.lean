import Keyring.Pkcs8
import Keyring.Proofs.Except
import Keyring.Proofs.Pkcs8.Der

namespace Keyring

theorem Seed.bytes_of_ofBytes? {b : Bytes} {seed : Seed} (h : Seed.ofBytes? b = some seed) :
    seed.bytes = b := by
  unfold Seed.ofBytes? at h
  split at h
  · cases h
    rfl
  · cases h

theorem Seed.eq_of_bytes {seed other : Seed} (h : seed.bytes = other.bytes) : seed = other := by
  cases seed
  cases other
  cases h
  rfl

namespace Pkcs8

open Der

inductive Attributes : Bytes → Prop
  | none : Attributes []
  | some {content text : Bytes} (h : Element 0xA0 content text) : Attributes text

/-- A public key in a document: as a bit string under a tag of its own, or under the tag alone. -/
inductive PublicKey (key : Bytes) : Bytes → Prop
  | wrapped {bits text : Bytes} (hbits : Element 0x03 (0 :: key) bits)
      (h : Element 0xA1 bits text) : PublicKey key text
  | bare {text : Bytes} (h : Element 0x81 (0 :: key) text) : PublicKey key text

/-- What stands in a document, with a public key in version 1 and without one in version 0. -/
inductive Body (secret : Bytes) : Option Bytes → Bytes → Prop
  | single {version algorithmId secretText attributes : Bytes} (hversion : Element 0x02 [0] version)
      (halgorithm : Element 0x30 algorithm algorithmId) (hsecret : Element 0x04 secret secretText)
      (hattributes : Attributes attributes) :
      Body secret none (version ++ (algorithmId ++ (secretText ++ attributes)))
  | paired {version algorithmId secretText attributes key keyText : Bytes}
      (hversion : Element 0x02 [1] version) (halgorithm : Element 0x30 algorithm algorithmId)
      (hsecret : Element 0x04 secret secretText) (hattributes : Attributes attributes)
      (hkey : PublicKey key keyText) :
      Body secret (some key) (version ++ (algorithmId ++ (secretText ++ (attributes ++ keyText))))

inductive Document (parts : Parts) : Bytes → Prop
  | mk {secretText body text : Bytes} (hsecret : Element 0x04 parts.secret secretText)
      (hbody : Body secretText parts.publicKey body) (h : Element 0x30 body text) :
      Document parts text

theorem demand_eq_ok_iff {α : Type} {o : Option α} {a : α} : demand o = .ok a ↔ o = some a := by
  cases o <;> simp [demand]

theorem PublicKey.starts {key text : Bytes} (h : PublicKey key text) :
    (∃ rest, text = 0xA1 :: rest) ∨ ∃ rest, text = 0x81 :: rest := by
  cases h with
  | wrapped hbits h =>
      cases h
      exact Or.inl ⟨_, rfl⟩
  | bare h =>
      cases h
      exact Or.inr ⟨_, rfl⟩

theorem attributes_of_skip {text rest : Bytes} (h : skipAttributes text = .ok rest) :
    ∃ attributes, Attributes attributes ∧ text = attributes ++ rest := by
  unfold skipAttributes at h
  split at h
  · obtain ⟨⟨content, after⟩, hfound, h⟩ := Except.map_eq_ok.mp h
    subst h
    obtain ⟨element, helement, htext⟩ :=
      (expect?_eq_some_iff (by decide)).mp (demand_eq_ok_iff.mp hfound)
    exact ⟨element, .some helement, htext⟩
  · cases h
    exact ⟨[], .none, rfl⟩

theorem skipAttributes_append {attributes rest : Bytes} (h : Attributes attributes)
    (hrest : ∀ more, rest ≠ 0xA0 :: more) : skipAttributes (attributes ++ rest) = .ok rest := by
  cases h with
  | none =>
      rw [List.nil_append]
      unfold skipAttributes
      split
      · rename_i more
        exact absurd rfl (hrest more)
      · rfl
  | some h =>
      have hfound : expect? 0xA0 (attributes ++ rest) = some (_, rest) :=
        (expect?_eq_some_iff (by decide)).mpr ⟨attributes, h, rfl⟩
      cases h
      rw [List.cons_append] at hfound ⊢
      simp only [skipAttributes, hfound]
      rfl

theorem readPublicKey_eq_ok_iff {text key rest : Bytes} :
    readPublicKey text = .ok (key, rest) ↔
      ∃ keyText, PublicKey key keyText ∧ text = keyText ++ rest := by
  constructor
  · intro h
    unfold readPublicKey at h
    split at h
    · cases h
    · obtain ⟨⟨content, after⟩, hfound, h⟩ := Except.bind_eq_ok.mp h
      obtain ⟨bits, hbits, h⟩ := Except.bind_eq_ok.mp h
      cases h
      obtain ⟨inner, hinner, hwhole⟩ := Option.bind_eq_some_iff.mp (demand_eq_ok_iff.mp hbits)
      obtain rfl := wholeBits?_eq_some_iff.mp hwhole
      obtain ⟨element, helement, htext⟩ :=
        (expect?_eq_some_iff (by decide)).mp (demand_eq_ok_iff.mp hfound)
      exact ⟨element, .wrapped ((only?_eq_some_iff (by decide)).mp hinner) helement, htext⟩
    · obtain ⟨⟨content, after⟩, hfound, h⟩ := Except.bind_eq_ok.mp h
      obtain ⟨bits, hbits, h⟩ := Except.bind_eq_ok.mp h
      cases h
      obtain rfl := wholeBits?_eq_some_iff.mp (demand_eq_ok_iff.mp hbits)
      obtain ⟨element, helement, htext⟩ :=
        (expect?_eq_some_iff (by decide)).mp (demand_eq_ok_iff.mp hfound)
      exact ⟨element, .bare helement, htext⟩
  · rintro ⟨keyText, hkey, rfl⟩
    cases hkey with
    | wrapped hbits h =>
        have hfound : expect? 0xA1 (keyText ++ rest) = some (_, rest) :=
          (expect?_eq_some_iff (by decide)).mpr ⟨keyText, h, rfl⟩
        have hinner := (only?_eq_some_iff (by decide)).mpr hbits
        have hbits : (only? 0x03 _).bind wholeBits? = some key :=
          Option.bind_eq_some_iff.mpr ⟨_, hinner, rfl⟩
        cases h
        rw [List.cons_append] at hfound ⊢
        rw [readPublicKey]
        refine Except.bind_eq_ok.mpr ⟨_, demand_eq_ok_iff.mpr hfound, ?_⟩
        exact Except.bind_eq_ok.mpr ⟨_, demand_eq_ok_iff.mpr hbits, rfl⟩
    | bare h =>
        have hfound : expect? 0x81 (keyText ++ rest) = some (_, rest) :=
          (expect?_eq_some_iff (by decide)).mpr ⟨keyText, h, rfl⟩
        have hbits : demand (wholeBits? (0 :: key)) = .ok key := rfl
        cases h
        rw [List.cons_append] at hfound ⊢
        rw [readPublicKey]
        · refine Except.bind_eq_ok.mpr ⟨_, demand_eq_ok_iff.mpr hfound, ?_⟩
          exact Except.bind_eq_ok.mpr ⟨_, hbits, rfl⟩
        · simp
        · simp

theorem body_of_readBody {text : Bytes} {parts : Parts} (h : readBody text = .ok parts) :
    Body parts.secret parts.publicKey text := by
  obtain ⟨⟨version, afterVersion⟩, hversion, h⟩ := Except.bind_eq_ok.mp h
  dsimp only at h
  split at h
  · cases h
  rename_i hsupported
  obtain ⟨⟨found, afterAlgorithm⟩, halgorithm, h⟩ := Except.bind_eq_ok.mp h
  dsimp only at h
  split at h
  · cases h
  rename_i hfound
  obtain rfl : found = algorithm := Decidable.not_not.mp hfound
  obtain ⟨⟨secret, afterSecret⟩, hsecret, h⟩ := Except.bind_eq_ok.mp h
  obtain ⟨rest, hskip, h⟩ := Except.bind_eq_ok.mp h
  have hparts : version = (0 : UInt8).toNat ∧ parts = ⟨secret, none⟩ ∧ rest = [] ∨
      version = (1 : UInt8).toNat ∧ ∃ key, parts = ⟨secret, some key⟩ ∧ PublicKey key rest := by
    split at h
    · rename_i hzero
      split at h
      · rename_i hempty
        exact Or.inl ⟨hzero, (Except.ok.inj h).symm, List.isEmpty_iff.mp hempty⟩
      · cases h
    · rename_i hzero
      obtain ⟨⟨key, after⟩, hkey, h⟩ := Except.bind_eq_ok.mp h
      obtain ⟨keyText, hkey, hrest⟩ := readPublicKey_eq_ok_iff.mp hkey
      dsimp only at h
      split at h
      · rename_i hempty
        rw [List.isEmpty_iff.mp hempty, List.append_nil] at hrest
        refine Or.inr ⟨?_, key, (Except.ok.inj h).symm, hrest ▸ hkey⟩
        show version = 1
        omega
      · cases h
  rw [demand_eq_ok_iff] at hversion halgorithm hsecret
  obtain ⟨algorithmId, halgorithmId, rfl⟩ := (expect?_eq_some_iff (by decide)).mp halgorithm
  obtain ⟨secretText, hsecretText, rfl⟩ := (expect?_eq_some_iff (by decide)).mp hsecret
  obtain ⟨attributes, hattributes, rfl⟩ := attributes_of_skip hskip
  rcases hparts with ⟨rfl, rfl, rfl⟩ | ⟨rfl, key, rfl, hkey⟩
  · obtain ⟨version, hversionText, rfl⟩ := (smallInteger?_eq_some_iff (by decide)).mp hversion
    rw [List.append_nil]
    exact .single hversionText halgorithmId hsecretText hattributes
  · obtain ⟨version, hversionText, rfl⟩ := (smallInteger?_eq_some_iff (by decide)).mp hversion
    exact .paired hversionText halgorithmId hsecretText hattributes hkey

/-- The parts in front of the public key are read one after the other. -/
theorem readBody_eq {n : UInt8} {version algorithmId secret secretText attributes rest : Bytes}
    (hn : n.toNat ≤ 1) (hversion : Element 0x02 [n] version)
    (halgorithm : Element 0x30 algorithm algorithmId) (hsecret : Element 0x04 secret secretText)
    (hattributes : Attributes attributes) (hrest : ∀ more, rest ≠ 0xA0 :: more) :
    readBody (version ++ (algorithmId ++ (secretText ++ (attributes ++ rest)))) =
      if n.toNat = 0 then
        if rest.isEmpty then .ok ⟨secret, none⟩ else .error .invalidEncoding
      else (readPublicKey rest).bind fun (key, rest) =>
        if rest.isEmpty then .ok ⟨secret, some key⟩ else .error .invalidEncoding := by
  have hsmall : n < 0x80 := UInt8.lt_iff_toNat_lt.mpr (Nat.lt_of_le_of_lt hn (by decide))
  have hfirst : smallInteger? (version ++ (algorithmId ++ (secretText ++ (attributes ++ rest)))) =
      some (n.toNat, algorithmId ++ (secretText ++ (attributes ++ rest))) :=
    (smallInteger?_eq_some_iff hsmall).mpr ⟨version, hversion, rfl⟩
  have hsecond : expect? 0x30 (algorithmId ++ (secretText ++ (attributes ++ rest))) =
      some (algorithm, secretText ++ (attributes ++ rest)) :=
    (expect?_eq_some_iff (by decide)).mpr ⟨algorithmId, halgorithm, rfl⟩
  have hthird : expect? 0x04 (secretText ++ (attributes ++ rest)) =
      some (secret, attributes ++ rest) :=
    (expect?_eq_some_iff (by decide)).mpr ⟨secretText, hsecret, rfl⟩
  simp only [readBody, hfirst, hsecond, hthird, skipAttributes_append hattributes hrest, demand,
    bind, Except.bind, Nat.not_lt.mpr hn, if_false, ne_eq, not_true_eq_false]
  rfl

theorem readBody_eq_ok_iff {text secret : Bytes} {key : Option Bytes} :
    readBody text = .ok ⟨secret, key⟩ ↔ Body secret key text := by
  refine ⟨fun h => body_of_readBody h, fun h => ?_⟩
  cases h with
  | single hversion halgorithm hsecret hattributes =>
      rename_i version algorithmId secretText attributes
      have hread := readBody_eq (by decide) hversion halgorithm hsecret hattributes
        fun more => (List.cons_ne_nil 0xA0 more).symm
      rwa [List.append_nil] at hread
  | paired hversion halgorithm hsecret hattributes hkey =>
      rename_i keyText
      have hrest : ∀ more, keyText ≠ 0xA0 :: more := by
        rcases hkey.starts with ⟨rest, rfl⟩ | ⟨rest, rfl⟩ <;> simp
      have hlast : readPublicKey keyText = .ok (_, []) :=
        readPublicKey_eq_ok_iff.mpr ⟨keyText, hkey, (List.append_nil keyText).symm⟩
      rw [readBody_eq (by decide) hversion halgorithm hsecret hattributes hrest, hlast]
      rfl

theorem read_eq_ok_iff {document : Bytes} {parts : Parts} :
    read document = .ok parts ↔ Document parts document := by
  constructor
  · intro h
    obtain ⟨⟨body, rest⟩, hbody, h⟩ := Except.bind_eq_ok.mp h
    obtain ⟨⟨secretText, key⟩, hparts, h⟩ := Except.bind_eq_ok.mp h
    dsimp only at h
    split at h
    · rename_i hempty
      obtain ⟨secret, hsecret, h⟩ := Except.bind_eq_ok.mp h
      cases h
      obtain ⟨element, helement, rfl⟩ :=
        (expect?_eq_some_iff (by decide)).mp (demand_eq_ok_iff.mp hbody)
      rw [List.isEmpty_iff.mp hempty, List.append_nil]
      exact ⟨(only?_eq_some_iff (by decide)).mp (demand_eq_ok_iff.mp hsecret),
        readBody_eq_ok_iff.mp hparts, helement⟩
    · cases h
  · rintro ⟨hsecret, hbody, h⟩
    have houter : expect? 0x30 document = some (_, []) :=
      (expect?_eq_some_iff (by decide)).mpr ⟨document, h, (List.append_nil document).symm⟩
    have hinner := (only?_eq_some_iff (by decide)).mpr hsecret
    refine Except.bind_eq_ok.mpr ⟨_, demand_eq_ok_iff.mpr houter, ?_⟩
    refine Except.bind_eq_ok.mpr ⟨_, readBody_eq_ok_iff.mpr hbody, ?_⟩
    exact Except.bind_eq_ok.mpr ⟨_, demand_eq_ok_iff.mpr hinner, rfl⟩

theorem Document.unique {document : Bytes} {parts other : Parts} (h : Document parts document)
    (hother : Document other document) : parts = other :=
  Except.ok.inj ((read_eq_ok_iff.mpr h).symm.trans (read_eq_ok_iff.mpr hother))

/-- A document is loaded if it holds a seed and no public key but the seed's own. -/
theorem load_eq_ok_iff [Scheme] {document : Bytes} {seed : Seed} :
    load document = .ok seed ↔
      ∃ key, Document ⟨seed.bytes, key⟩ document ∧
        ∀ found ∈ key, found = Scheme.publicKey seed := by
  constructor
  · intro h
    obtain ⟨⟨secret, key⟩, hread, h⟩ := Except.bind_eq_ok.mp h
    obtain ⟨found, hfound, h⟩ := Except.bind_eq_ok.mp h
    have hsecret : found.bytes = secret :=
      Seed.bytes_of_ofBytes? (demand_eq_ok_iff.mp hfound)
    subst hsecret
    refine ⟨key, ?_⟩
    rw [← read_eq_ok_iff]
    cases key with
    | none =>
        cases h
        exact ⟨hread, by simp⟩
    | some publicKey =>
        dsimp only at h
        split at h
        · rename_i hown
          cases h
          refine ⟨hread, fun other hother => ?_⟩
          rw [← Option.some.inj hother, hown]
        · split at h <;> cases h
  · rintro ⟨key, hdocument, hkey⟩
    refine Except.bind_eq_ok.mpr ⟨_, read_eq_ok_iff.mpr hdocument, ?_⟩
    refine Except.bind_eq_ok.mpr ⟨_, demand_eq_ok_iff.mpr seed.ofBytes?_bytes, ?_⟩
    cases key with
    | none => rfl
    | some found => exact if_pos (hkey found rfl)

/-- What stands in front of the seed in a document that is written. -/
def preamble : Bytes :=
  [0x30, 0x2E, 0x02, 0x01, 0x00, 0x30, 0x05, 0x06, 0x03, 0x2B, 0x65, 0x70, 0x04, 0x22, 0x04, 0x20]

theorem write_eq (seed : Seed) : write seed = preamble ++ seed.bytes := by
  simp [write, body, Der.write, algorithm, preamble, seed.length_bytes]

end Pkcs8

end Keyring
