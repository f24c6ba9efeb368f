import Keyring.Proofs.Pkcs8
import Keyring.Proofs.SigningKey
import Keyring.Token

namespace Keyring.SigningKey

/-- Keys that nobody can tell apart by what they are named, publish and sign. -/
structure Interchangeable [Scheme] (k other : SigningKey) : Prop where
  id : k.id = other.id
  jwk : k.jwk = other.jwk
  sign : ∀ message, k.sign message = other.sign message
  token : ∀ header claims,
    Token.encode k.document header claims = Token.encode other.document header claims

section

variable [Scheme]

theorem Interchangeable.of_seed {k other : SigningKey} (h : k.seed = other.seed) :
    k.Interchangeable other := by
  have hpublicKey : k.publicKey = other.publicKey := by rw [k.publicKey_eq, other.publicKey_eq, h]
  have hsign : ∀ message, k.sign message = other.sign message := by
    intro message
    show Scheme.sign k.seed message = Scheme.sign other.seed message
    rw [h]
  refine ⟨?_, ?_, hsign, fun header claims => ?_⟩
  · rw [k.id_eq, other.id_eq, hpublicKey]
  · rw [k.jwk_eq, other.jwk_eq, hpublicKey]
  · simp only [Token.encode, load_of_document, hsign]

/-- A key depends on the seed in its document alone. The document that is written for a seed gives
that seed back. Documents that can be loaded are those with a seed and no public key but the seed's
own, in every form that they may have; the seed is the only one in them, and the key is as good as
the one loaded from what is written for the seed. -/
theorem load_by_seed :
    (∀ seed : Seed, Pkcs8.write seed = Pkcs8.preamble ++ seed.bytes ∧
      ∃ k, load (Pkcs8.write seed) = .ok k ∧ k.seed = seed) ∧
    (∀ document, (∃ k, load document = .ok k) ↔
      ∃ (seed : Seed) (key : Option Bytes), Pkcs8.Document ⟨seed.bytes, key⟩ document ∧
        ∀ found ∈ key, found = Scheme.publicKey seed) ∧
    ∀ document k, load document = .ok k →
      ∃ (seed : Seed) (key : Option Bytes), Pkcs8.Document ⟨seed.bytes, key⟩ document ∧
        (∀ (other : Seed) (otherKey : Option Bytes),
          Pkcs8.Document ⟨other.bytes, otherKey⟩ document → other = seed ∧ otherKey = key) ∧
        (∀ found ∈ key, found = Scheme.publicKey seed) ∧
        ∃ written, load (Pkcs8.write seed) = .ok written ∧ k.Interchangeable written := by
  refine ⟨fun seed => ⟨Pkcs8.write_eq seed, _, load_write seed, rfl⟩, fun document => ?_,
    fun document k hload => ?_⟩
  · constructor
    · rintro ⟨k, hload⟩
      obtain rfl := document_of_load hload
      exact ⟨k.seed, Pkcs8.load_eq_ok_iff.mp k.load_document⟩
    · rintro ⟨seed, hdocument⟩
      have hseed := Pkcs8.load_eq_ok_iff.mpr hdocument
      exact ⟨_, load_of_document (ofDocument document seed hseed)⟩
  · obtain rfl := document_of_load hload
    obtain ⟨key, hdocument, hkey⟩ := Pkcs8.load_eq_ok_iff.mp k.load_document
    refine ⟨k.seed, key, hdocument, fun other otherKey hother => ?_, hkey, _, load_write k.seed,
      .of_seed rfl⟩
    obtain ⟨hbytes, hsame⟩ := Pkcs8.Parts.mk.inj (hother.unique hdocument)
    exact ⟨Seed.eq_of_bytes hbytes, hsame⟩

end

/-- A seed in version 1, with attributes that make the document long and a public key behind them.
-/
def attributed : Bytes :=
  let seed := List.replicate 32 7
  [0x30, 0x81, 0x91] ++ Der.write 0x02 [1] ++ Der.write 0x30 Pkcs8.algorithm ++
    Der.write 0x04 (Der.write 0x04 seed) ++ Der.write 0xA0 (List.replicate 60 0) ++
    Der.write 0xA1 (Der.write 0x03 (0 :: seed))

theorem load_by_seed_attributed :
    letI : Scheme := .plain
    let seed : Seed := ⟨List.replicate 32 7, rfl⟩
    ∃ k written, load attributed = .ok k ∧ load (Pkcs8.preamble ++ seed.bytes) = .ok written ∧
      k.Interchangeable written := by
  let _ : Scheme := .plain
  let seed : Seed := ⟨List.replicate 32 7, rfl⟩
  have hread : Pkcs8.read attributed = .ok ⟨seed.bytes, some seed.bytes⟩ :=
    Except.toOption_eq_some_iff.mp (by decide +kernel)
  have hdocument := Pkcs8.read_eq_ok_iff.mp hread
  obtain ⟨hwritten, hloads, hseeds⟩ := load_by_seed
  obtain ⟨k, hload⟩ : ∃ k, load attributed = .ok k :=
    (hloads attributed).mpr ⟨seed, _, hdocument, fun found h => (Option.some.inj h).symm⟩
  obtain ⟨found, key, -, hunique, -, written, hwrite, hsame⟩ := hseeds attributed k hload
  obtain rfl : seed = found := (hunique seed _ hdocument).1
  rw [(hwritten seed).1] at hwrite
  exact ⟨k, written, hload, hwrite, hsame⟩

end Keyring.SigningKey
