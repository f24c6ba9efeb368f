import Keyring.Generator
import Keyring.Proofs.SigningKey
import Keyring.Proofs.Token.Claims
import Keyring.Proofs.Token.Header
import Keyring.Token

namespace Keyring.Token

open Json

theorem splitLast_of_not_mem {b : UInt8} {text : Bytes} (h : b ∉ text) :
    splitLast b text = none := by
  induction text with
  | nil => rfl
  | cons c rest ih =>
      rw [List.mem_cons, not_or] at h
      simp only [splitLast, ih h.2, if_neg (Ne.symm h.1)]

theorem splitLast_append {b : UInt8} {after : Bytes} (h : b ∉ after) (before : Bytes) :
    splitLast b (before ++ b :: after) = some (before, after) := by
  induction before with
  | nil => simp only [List.nil_append, splitLast, splitLast_of_not_mem h, if_pos]
  | cons c before ih => simp only [List.cons_append, splitLast, ih]

theorem dot_not_mem_encode (b : Bytes) : dot ∉ Base64Url.encode b := by
  intro h
  obtain ⟨n, hn⟩ := Base64Url.value?_of_mem_encode h
  have hdot : Base64Url.value? dot = none := by decide
  exact nomatch hdot.symm.trans hn

theorem decodePart_encode (b : Bytes) : decodePart (Base64Url.encode b) = .ok b := by
  rw [decodePart, Base64Url.decode_encode]

section

variable [Scheme]

theorem encode_document (k : SigningKey) (header : Header) (claims : Claims)
    (h : header.alg = .edDSA := by rfl) :
    encode k.document header claims =
      .ok (signingInput header claims ++
        dot :: Base64Url.encode (k.sign (signingInput header claims))) := by
  simp only [encode, h, ne_eq, not_true_eq_false, if_false, k.load_of_document]

/-- Of a token that is properly signed everything is accepted but its claims, perhaps. -/
theorem decode_signed {key signature : Bytes} {header : Header} {claims : Claims}
    (halg : header.alg = .edDSA)
    (h : Scheme.verify key (signingInput header claims) signature = true) :
    decode key (signingInput header claims ++ dot :: Base64Url.encode signature) =
      (ofJson (Claims.read claims.write)).map (header, ·) := by
  have houter := splitLast_append (dot_not_mem_encode signature) (signingInput header claims)
  have hinner : splitLast dot (signingInput header claims) =
      some (Base64Url.encode header.write, Base64Url.encode claims.write) :=
    splitLast_append (dot_not_mem_encode claims.write) _
  simp only [decode, houter, hinner, decodePart_encode, Header.read_write, ofJson, bind,
    Except.bind, halg, ne_eq, not_true_eq_false, if_false, h, if_true]
  cases Claims.read claims.write <;> rfl

/-- A token made with a key's document is accepted under the key that is published for it, with the
claims and the name that it was made with, unless a registered claim is not what it may be. -/
theorem accepted_under_jwk (h : Scheme.Sound) (k : SigningKey) {members : List (String × Value)}
    (hplain : (Value.object members).Plain depthLimit) (kid : Option String) :
    ∃ token key, encode k.document { alg := .edDSA, kid } (.object members) = .ok token ∧
      k.jwk.decodingKey = .ok key ∧
      decode key token =
        if Claims.FitRegistered members then .ok ({ alg := .edDSA, kid }, .object members)
        else .error .json := by
  refine ⟨_, k.publicKey, encode_document k { alg := .edDSA, kid } (.object members),
    k.decodingKey_jwk, ?_⟩
  have hverify (message : Bytes) : Scheme.verify k.publicKey message (k.sign message) = true := by
    rw [k.publicKey_eq]
    exact h k.seed message
  rw [decode_signed rfl (hverify _), Claims.read_write hplain]
  split <;> rfl

end

/-- Claims with what a text may have to escape, to nest and to sort. -/
def assortedClaims : List (String × Value) :=
  [("", .null), ("exp", .number (.whole (-1))), ("iss", .text "a\".\"b\\\n\u0001é"),
    ("list", .list [.bool true, .list [], .object [(".", .bool false)]])]

theorem plain_assortedClaims : (Value.object assortedClaims).Plain depthLimit := by
  refine .object (by decide) fun m hm => ?_
  simp only [assortedClaims, List.mem_cons, List.not_mem_nil, or_false] at hm
  rcases hm with rfl | rfl | rfl | rfl
  · exact .null
  · exact .number ⟨by decide, by decide⟩
  · exact .text _
  · refine .list fun item hitem => ?_
    simp only [List.mem_cons, List.not_mem_nil, or_false] at hitem
    rcases hitem with rfl | rfl | rfl
    · exact .bool true
    · exact .list (by simp)
    · refine .object (by decide) fun m hm => ?_
      rw [List.mem_singleton.mp hm]
      exact .bool false

theorem accepted_under_jwk_assorted :
    let _ : Scheme := .plain
    Scheme.Sound ∧ (Value.object assortedClaims).Plain depthLimit ∧
      ∃ token key,
        encode (SigningKey.numbered 1).document { alg := .edDSA, kid := some "a.\"\n\\é" }
          (.object assortedClaims) = .ok token ∧
        (SigningKey.numbered 1).jwk.decodingKey = .ok key ∧
        decode key token =
          .ok ({ alg := .edDSA, kid := some "a.\"\n\\é" }, .object assortedClaims) := by
  let _ : Scheme := .plain
  obtain ⟨token, key, htoken, hkey, hdecode⟩ := accepted_under_jwk Scheme.sound_plain
    (.numbered 1) plain_assortedClaims (some "a.\"\n\\é")
  rw [if_pos (by decide)] at hdecode
  exact ⟨Scheme.sound_plain, plain_assortedClaims, token, key, htoken, hkey, hdecode⟩

/-- A subject that is a list is signed, but not accepted. -/
theorem listed_subject_rejected :
    let _ : Scheme := .plain
    Scheme.Sound ∧ (Value.object [("sub", .list [])]).Plain depthLimit ∧
      ∃ token key,
        encode (SigningKey.numbered 1).document { alg := .edDSA } (.object [("sub", .list [])]) =
          .ok token ∧
        (SigningKey.numbered 1).jwk.decodingKey = .ok key ∧
        decode key token = .error .json := by
  let _ : Scheme := .plain
  have hplain : (Value.object [("sub", .list [])]).Plain depthLimit := by
    refine .object (by decide) fun m hm => ?_
    rw [List.mem_singleton.mp hm]
    exact .list (by simp)
  refine ⟨Scheme.sound_plain, hplain, _, _, encode_document _ _ _, SigningKey.decodingKey_jwk _,
    ?_⟩
  rw [decode_signed rfl, Claims.read_write hplain, if_neg (by decide)]
  · rfl
  · exact Scheme.sound_plain _ _

end Keyring.Token
