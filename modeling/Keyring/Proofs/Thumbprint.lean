import Keyring.Proofs.Json.Grammar
import Keyring.Proofs.SigningKey

namespace Keyring

namespace Base64Url

theorem isPlain_of_value? {byte : UInt8} {n : Nat} (h : value? byte = some n) :
    Json.IsPlain (Char.ofNat byte.toNat) := by
  have hall : ∀ i : Fin 64, Json.IsPlain (Char.ofNat (symbol i).toNat) := by decide
  rw [← symbol_of_value? h]
  exact hall ⟨n, value?_lt h⟩

theorem isPlain_of_mem_encodeText {b : Bytes} {c : Char} (hc : c ∈ (encodeText b).toList) :
    Json.IsPlain c := by
  rw [encodeText, Bytes.toLatin, String.toList_ofList] at hc
  obtain ⟨byte, hbyte, rfl⟩ := List.mem_map.mp hc
  obtain ⟨n, hn⟩ := value?_of_mem_encode hbyte
  exact isPlain_of_value? hn

end Base64Url

namespace Jwk

open Json

/-- The members that name a public key, in the order in which they are hashed. -/
def requiredMembers (x : String) : List (String × Tree) :=
  [("crv", .text curve), ("kty", .text keyType), ("x", .text x)]

theorem spells_canonicalText {x : String} (hx : ∀ c ∈ x.toList, IsPlain c) :
    Spells (.value (.object (requiredMembers x))) (canonicalText x) := by
  have hplain : ∀ s ∈ ["crv", curve, "kty", keyType, "x"], ∀ c ∈ s.toList, IsPlain c :=
    isPlain_of_all (by decide +kernel)
  have hcurve := spells_plainMember (hplain "crv" (by decide)) (hplain curve (by decide))
  have htype := spells_plainMember (hplain "kty" (by decide)) (hplain keyType (by decide))
  have hlast := spells_plainMember (hplain "x" (by decide)) hx
  have h := Spells.object (.moreMembers hcurve (.moreMembers htype (.lastMember hlast)))
  have hopen : Bytes.ofText "\x7b\"crv\":\"" =
      openObject :: quoteMark :: (Bytes.ofText "crv" ++ [quoteMark, colon, quoteMark]) := by
    decide +kernel
  have hsecond : Bytes.ofText "\",\"kty\":\"" =
      quoteMark :: comma :: quoteMark :: (Bytes.ofText "kty" ++ [quoteMark, colon, quoteMark]) := by
    decide +kernel
  have hthird : Bytes.ofText "\",\"x\":\"" =
      quoteMark :: comma :: quoteMark :: (Bytes.ofText "x" ++ [quoteMark, colon, quoteMark]) := by
    decide +kernel
  have hclose : Bytes.ofText "\"\x7d" = [quoteMark, closeObject] := by decide +kernel
  rw [canonicalText, requiredMembers, hopen, hsecond, hthird, hclose]
  simpa only [List.append_assoc, List.cons_append, List.nil_append] using h

end Jwk

/-- The public half of a loaded key is named by its thumbprint and gives back the octets that follow
from the key's seed. Octets that stand in a key as base64url stand there in one way, so they have
one thumbprint, and it is the digest of an object with the required members. -/
theorem SigningKey.jwk_names_key [Scheme] :
    (∀ (document : Bytes) (k : SigningKey), SigningKey.load document = .ok k →
      k.jwk.kid = k.id ∧ k.id = k.jwk.thumbprint ∧
        ∃ seed, Pkcs8.load document = .ok seed ∧ (Scheme.publicKey seed).length = 32 ∧
          k.jwk.publicKey? = .ok (Scheme.publicKey seed) ∧
          k.jwk.decodingKey = .ok (Scheme.publicKey seed)) ∧
      (∀ (j other : Jwk) (key : Bytes), j.publicKey? = .ok key → other.publicKey? = .ok key →
        j.x = other.x ∧ j.thumbprint = other.thumbprint) ∧
      ∀ (j : Jwk) (key : Bytes), j.publicKey? = .ok key →
        j.thumbprint = Base64Url.encodeText (Hash.sha256 (Jwk.canonicalText j.x)) ∧
          Json.Spells (.value (.object (Jwk.requiredMembers j.x))) (Jwk.canonicalText j.x) := by
  refine ⟨fun document k hload => ?_, fun j other key hj hother => ?_, fun j key hj => ?_⟩
  · obtain rfl := k.document_of_load hload
    have hid : k.id = k.jwk.thumbprint := by
      rw [Jwk.thumbprint, k.id_eq]
      rfl
    refine ⟨rfl, hid, k.seed, k.load_document, Scheme.length_publicKey k.seed, ?_, ?_⟩
    · rw [← k.publicKey_eq]
      exact k.publicKey?_jwk
    · rw [← k.publicKey_eq]
      exact k.decodingKey_jwk
  · have hx : j.x = other.x :=
      (Base64Url.eq_encodeText_of_decode hj).trans (Base64Url.eq_encodeText_of_decode hother).symm
    exact ⟨hx, by rw [Jwk.thumbprint, hx, Jwk.thumbprint]⟩
  · refine ⟨by rw [Jwk.thumbprint, Jwk.thumbprintOf], Jwk.spells_canonicalText ?_⟩
    rw [Base64Url.eq_encodeText_of_decode hj]
    exact fun c hc => Base64Url.isPlain_of_mem_encodeText hc

theorem SigningKey.jwk_names_key_zeros :
    letI : Scheme := .plain
    let seed : Seed := ⟨List.replicate 32 0, rfl⟩
    let k := SigningKey.ofSeed seed
    let renamed : Jwk := { k.jwk with kid := "other" }
    SigningKey.load (Pkcs8.write seed) = .ok k ∧ k.jwk.kid = k.jwk.thumbprint ∧
      k.jwk.publicKey? = .ok seed.bytes ∧ renamed.publicKey? = .ok seed.bytes ∧
      renamed.thumbprint = k.id ∧
      Json.Spells (.value (.object (Jwk.requiredMembers renamed.x)))
        (Jwk.canonicalText renamed.x) := by
  let _ : Scheme := .plain
  let seed : Seed := ⟨List.replicate 32 0, rfl⟩
  let k := SigningKey.ofSeed seed
  let renamed : Jwk := { k.jwk with kid := "other" }
  obtain ⟨hnamed, hunique, hdigest⟩ := SigningKey.jwk_names_key
  have hload : SigningKey.load (Pkcs8.write seed) = .ok k := SigningKey.load_write seed
  obtain ⟨hkid, hid, found, hfound, -, hkey, -⟩ := hnamed (Pkcs8.write seed) k hload
  obtain rfl : seed = found := Except.ok.inj ((Pkcs8.load_write seed).symm.trans hfound)
  have hrenamed : renamed.publicKey? = .ok seed.bytes := by
    rw [Jwk.publicKey?]
    exact hkey
  have hsame := (hunique renamed k.jwk seed.bytes hrenamed hkey).2
  exact ⟨hload, hkid.trans hid, hkey, hrenamed, hsame.trans hid.symm,
    (hdigest renamed seed.bytes hrenamed).2⟩

end Keyring
