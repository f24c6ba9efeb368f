import Keyring.Proofs.Except
import Keyring.Proofs.Token

namespace Keyring

namespace Jwk

theorem decodingKey_eq_ok_iff {j : Jwk} {key : Bytes} :
    j.decodingKey = .ok key ↔ j.publicKey? = .ok key := by
  unfold decodingKey
  cases j.publicKey? <;> simp

/-- A key verifies octets as it verifies tokens, with the octets it stands for. -/
theorem verify_eq_true_iff [Scheme] {j : Jwk} {message signature : Bytes} :
    j.verify message signature = true ↔
      ∃ key, j.decodingKey = .ok key ∧ Scheme.verify key message signature = true := by
  simp only [decodingKey_eq_ok_iff]
  unfold verify
  cases j.publicKey? <;> simp

end Jwk

namespace Token

open Json

theorem splitLast_eq_none_iff {b : UInt8} {text : Bytes} : splitLast b text = none ↔ b ∉ text := by
  refine ⟨fun h => ?_, splitLast_of_not_mem⟩
  induction text with
  | nil => exact List.not_mem_nil
  | cons c rest ih =>
      unfold splitLast at h
      cases hrest : splitLast b rest with
      | some found => simp [hrest] at h
      | none =>
          rw [hrest] at h
          dsimp only at h
          split at h
          · cases h
          · rename_i hne
            exact List.not_mem_cons_of_ne_of_not_mem (Ne.symm hne) (ih hrest)

theorem splitLast_eq_some_iff {b : UInt8} {text before after : Bytes} :
    splitLast b text = some (before, after) ↔ text = before ++ b :: after ∧ b ∉ after := by
  constructor
  · intro h
    induction text generalizing before after with
    | nil => cases h
    | cons c rest ih =>
        unfold splitLast at h
        cases hrest : splitLast b rest with
        | some found =>
            obtain ⟨front, back⟩ := found
            rw [hrest] at h
            cases h
            obtain ⟨rfl, hback⟩ := ih hrest
            exact ⟨rfl, hback⟩
        | none =>
            rw [hrest] at h
            dsimp only at h
            split at h
            · rename_i hc
              cases h
              exact ⟨by rw [hc, List.nil_append], splitLast_eq_none_iff.mp hrest⟩
            · cases h
  · rintro ⟨rfl, hafter⟩
    exact splitLast_append hafter before

/-- The parts of a token. Two dots set off the last two; any other stands in the header's. -/
structure Parts where
  header : Bytes
  claims : Bytes
  signature : Bytes
  dot_not_mem_claims : dot ∉ claims
  dot_not_mem_signature : dot ∉ signature

namespace Parts

/-- What is signed. -/
def message (p : Parts) : Bytes := p.header ++ dot :: p.claims

def token (p : Parts) : Bytes := p.message ++ dot :: p.signature

def ReadsHeader (p : Parts) (header : Header) : Prop :=
  ∃ text, Base64Url.decode p.header = .ok text ∧ Header.read text = .ok header

/-- The claims' part holds an object with these members, in their order and with repeated names. -/
def ReadsObject (p : Parts) (members : List (String × Value)) : Prop :=
  ∃ text rest, Base64Url.decode p.claims = .ok text ∧
    readOutline depthLimit text = .ok (.object members, rest) ∧ expectEnd rest = .ok ()

/-- The first two parts hold texts of these values, however they are written. -/
def Holds (p : Parts) (header claims : Tree) : Prop :=
  (∃ text, Base64Url.decode p.header = .ok text ∧ Spells (.item header) text) ∧
    ∃ text, Base64Url.decode p.claims = .ok text ∧ Spells (.item claims) text

theorem readsHeader_of_write {p : Parts} {header : Header}
    (h : p.header = Base64Url.encode header.write) : p.ReadsHeader header :=
  ⟨header.write, by rw [h, Base64Url.decode_encode], header.read_write⟩

theorem readsObject_of_write {p : Parts} {members : List (String × Value)}
    (h : p.claims = Base64Url.encode (Claims.write (.object members)))
    (hplain : (Value.object members).Plain depthLimit) : p.ReadsObject members := by
  have hread := hplain.readOutline_write []
  rw [List.append_nil] at hread
  exact ⟨_, _, by rw [h, Base64Url.decode_encode]; rfl, hread, rfl⟩

theorem splitLast_token (p : Parts) : splitLast dot p.token = some (p.message, p.signature) :=
  splitLast_append p.dot_not_mem_signature p.message

theorem splitLast_message (p : Parts) : splitLast dot p.message = some (p.header, p.claims) :=
  splitLast_append p.dot_not_mem_claims p.header

end Parts

theorem decodePart_eq_ok_iff {part text : Bytes} :
    decodePart part = .ok text ↔ Base64Url.decode part = .ok text := by
  unfold decodePart
  cases Base64Url.decode part <;> simp

theorem ofJson_eq_ok_iff {α : Type} {x : Except Json.Fault α} {a : α} :
    ofJson x = .ok a ↔ x = .ok a := by
  cases x <;> simp [ofJson]

/-- Claims that are an object are read as it stands if its registered members fit. -/
theorem readClaims_of_object {p : Parts} {members : List (String × Value)}
    (h : p.ReadsObject members) :
    (do ofJson (Claims.read (← decodePart p.claims))) =
      if Claims.NamedOnce members ∧ Claims.FitRegistered members then
        .ok (.object (sortMembers members))
      else .error .json := by
  obtain ⟨text, rest, htext, hread, hend⟩ := h
  simp only [decodePart_eq_ok_iff.mpr htext, Claims.read, hread, hend, bind, Except.bind,
    Claims.areReadable_object_iff, Outline.value]
  split <;> rfl

theorem ofJson_eq {α : Type} (x : Except Json.Fault α) :
    ofJson x = match x.toOption with
      | some a => .ok a
      | none => .error .json := by
  cases x <;> rfl

/-- What a token with these values is accepted as, once it is signed. -/
def ofTrees (header claims : Tree) : Except Fault (Header × Claims) :=
  match Header.ofTree? header with
  | none => .error .json
  | some header =>
      if header.alg = .edDSA then
        match Claims.ofTree? claims with
        | none => .error .json
        | some claims => .ok (header, claims)
      else .error .invalidAlgorithm

section

variable [Scheme]

/-- The signature of a token is one that a public key accepts. -/
def Parts.Signed (p : Parts) (key : Bytes) : Prop :=
  ∃ signature, Base64Url.decode p.signature = .ok signature ∧
    Scheme.verify key p.message signature = true

/-- Behind the signature only the claims are left to be read. -/
theorem decode_token {p : Parts} {key : Bytes} {header : Header} (hheader : p.ReadsHeader header)
    (halg : header.alg = .edDSA) (hsigned : p.Signed key) :
    decode key p.token =
      (do ofJson (Claims.read (← decodePart p.claims))).map (header, ·) := by
  obtain ⟨text, htext, hread⟩ := hheader
  obtain ⟨signature, hsignature, hverify⟩ := hsigned
  simp only [decode, p.splitLast_token, p.splitLast_message, decodePart_eq_ok_iff.mpr htext,
    hread, ofJson, bind, Except.bind, halg, ne_eq, not_true_eq_false, if_false,
    decodePart_eq_ok_iff.mpr hsignature, hverify, if_true]
  cases decodePart p.claims with
  | error fault => rfl
  | ok text => cases Claims.read text <;> rfl

/-- What is signed is understood by what its parts say. -/
theorem decode_of_holds {p : Parts} {key : Bytes} {header claims : Tree}
    (h : p.Holds header claims) (hsigned : p.Signed key) :
    decode key p.token = ofTrees header claims := by
  obtain ⟨⟨text, htext, hheader⟩, claimsText, hclaimsText, hclaims⟩ := h
  obtain ⟨signature, hsignature, hverify⟩ := hsigned
  simp only [decode, p.splitLast_token, p.splitLast_message, decodePart_eq_ok_iff.mpr htext,
    decodePart_eq_ok_iff.mpr hclaimsText, decodePart_eq_ok_iff.mpr hsignature, ofJson_eq,
    Header.toOption_read hheader, Claims.toOption_read hclaims, hverify, if_true, ofTrees, bind,
    Except.bind, ne_eq, ite_not]
  cases Header.ofTree? header with
  | none => rfl
  | some header =>
      cases Claims.ofTree? claims <;> rfl

theorem parts_of_decode {key token : Bytes} {header : Header} {claims : Claims}
    (h : decode key token = .ok (header, claims)) :
    ∃ p : Parts, p.token = token ∧ p.ReadsHeader header ∧ header.alg = .edDSA ∧ p.Signed key := by
  unfold decode at h
  split at h
  · cases h
  rename_i message signature hsplit
  split at h
  · cases h
  rename_i headerPart claimsPart hinner
  obtain ⟨htoken, hsignature⟩ := splitLast_eq_some_iff.mp hsplit
  obtain ⟨hmessage, hclaims⟩ := splitLast_eq_some_iff.mp hinner
  refine ⟨⟨headerPart, claimsPart, signature, hclaims, hsignature⟩, ?_, ?_⟩
  · rw [htoken, hmessage]
    rfl
  obtain ⟨text, htext, h⟩ := Except.bind_eq_ok.mp h
  obtain ⟨found, hfound, h⟩ := Except.bind_eq_ok.mp h
  split at h
  · cases h
  rename_i halg
  obtain ⟨octets, hoctets, h⟩ := Except.bind_eq_ok.mp h
  split at h
  · rename_i hverify
    obtain ⟨claimsText, -, h⟩ := Except.bind_eq_ok.mp h
    obtain ⟨claims, -, h⟩ := Except.bind_eq_ok.mp h
    cases h
    rw [hmessage] at hverify
    exact ⟨⟨text, decodePart_eq_ok_iff.mp htext, ofJson_eq_ok_iff.mp hfound⟩,
      Decidable.not_not.mp halg, octets, decodePart_eq_ok_iff.mp hoctets, hverify⟩
  · cases h

theorem encodes_iff {k : SigningKey} {header : Header} {claims : Claims} :
    (∃ token, encode k.document header claims = .ok token) ↔ header.alg = .edDSA := by
  refine ⟨fun ⟨token, h⟩ => ?_, fun h => ⟨_, encode_document k header claims h⟩⟩
  unfold encode at h
  split at h
  · cases h
  · rename_i halg
    exact Decidable.not_not.mp halg

theorem parts_of_encode {k : SigningKey} {header : Header} {claims : Claims} {token : Bytes}
    (h : encode k.document header claims = .ok token) :
    ∃ p : Parts, p.token = token ∧ p.header = Base64Url.encode header.write ∧
      p.claims = Base64Url.encode claims.write ∧
      p.signature = Base64Url.encode (k.sign p.message) := by
  rw [encode_document k header claims (encodes_iff.mp ⟨token, h⟩)] at h
  cases h
  exact ⟨⟨_, _, _, dot_not_mem_encode _, dot_not_mem_encode _⟩, rfl, rfl, rfl, rfl⟩

/-- Tokens are signed and verified as any octets are: a token carries the signature of its first
two parts, who accepts a token accepts that signature, and who accepts it accepts the token if its
header and its claims can be read and the registered claims fit. What can be read is told by what
the parts say, however it is written: a header names its algorithm, and nothing that a header can
have stands in it twice or as what it cannot be. A public key that tokens cannot be verified with
accepts no signature at all. -/
theorem signed_as_octets :
    (∀ (k : SigningKey) (header : Header) (claims : Claims),
      ((∃ token, encode k.document header claims = .ok token) ↔ header.alg = .edDSA) ∧
      ∀ token, encode k.document header claims = .ok token →
        ∃ p : Parts, p.token = token ∧ p.header = Base64Url.encode header.write ∧
          p.claims = Base64Url.encode claims.write ∧
          p.signature = Base64Url.encode (k.sign p.message)) ∧
    (∀ (j : Jwk) (key token : Bytes) (header : Header) (claims : Claims),
      j.decodingKey = .ok key → decode key token = .ok (header, claims) →
        ∃ (p : Parts) (signature : Bytes), p.token = token ∧
          Base64Url.decode p.signature = .ok signature ∧ j.verify p.message signature = true) ∧
    (∀ (j : Jwk) (p : Parts) (signature : Bytes) (header claims : Tree),
      Base64Url.decode p.signature = .ok signature → j.verify p.message signature = true →
      p.Holds header claims →
        ∃ key, j.decodingKey = .ok key ∧ decode key p.token = ofTrees header claims) ∧
    (∀ (j : Jwk) (p : Parts) (signature : Bytes) (header : Header)
      (members : List (String × Value)),
      Base64Url.decode p.signature = .ok signature → j.verify p.message signature = true →
      p.ReadsHeader header → header.alg = .edDSA → p.ReadsObject members →
        ∃ key, j.decodingKey = .ok key ∧ decode key p.token =
          if Claims.NamedOnce members ∧ Claims.FitRegistered members then
            .ok (header, .object (sortMembers members))
          else .error .json) ∧
    ∀ (j : Jwk) (e : KeyError), j.decodingKey = .error e →
      ∀ message signature, j.verify message signature = false := by
  refine ⟨fun k header claims => ⟨encodes_iff, fun token => parts_of_encode⟩, ?_, ?_, ?_, ?_⟩
  · intro j key token header claims hkey hdecode
    obtain ⟨p, htoken, -, -, signature, hsignature, hverify⟩ := parts_of_decode hdecode
    exact ⟨p, signature, htoken, hsignature, Jwk.verify_eq_true_iff.mpr ⟨key, hkey, hverify⟩⟩
  · intro j p signature header claims hsignature hverify hholds
    obtain ⟨key, hkey, hverify⟩ := Jwk.verify_eq_true_iff.mp hverify
    exact ⟨key, hkey, decode_of_holds hholds ⟨signature, hsignature, hverify⟩⟩
  · intro j p signature header members hsignature hverify hheader halg hclaims
    obtain ⟨key, hkey, hverify⟩ := Jwk.verify_eq_true_iff.mp hverify
    refine ⟨key, hkey, ?_⟩
    rw [decode_token hheader halg ⟨signature, hsignature, hverify⟩, readClaims_of_object hclaims]
    split <;> rfl
  · intro j e herror message signature
    refine Bool.eq_false_iff.mpr fun hverify => ?_
    obtain ⟨key, hkey, -⟩ := Jwk.verify_eq_true_iff.mp hverify
    cases herror.symm.trans hkey

end

/-- The parts of a token with these values that a key has signed. -/
def Parts.signedBy [Scheme] (k : SigningKey) (header claims : Tree) : Parts :=
  let headerPart := Base64Url.encode header.write
  let claimsPart := Base64Url.encode claims.write
  ⟨headerPart, claimsPart, Base64Url.encode (k.sign (headerPart ++ dot :: claimsPart)),
    dot_not_mem_encode _, dot_not_mem_encode _⟩

section

variable [Scheme] (k : SigningKey) {header claims : Tree}

theorem Parts.decode_signedBy :
    Base64Url.decode (signedBy k header claims).signature =
      .ok (k.sign (signedBy k header claims).message) :=
  Base64Url.decode_encode _

theorem Parts.holds_signedBy (hheader : header.Proper) (hclaims : claims.Proper) :
    (signedBy k header claims).Holds header claims :=
  ⟨⟨_, Base64Url.decode_encode _, hheader.spells.bareItem⟩,
    _, Base64Url.decode_encode _, hclaims.spells.bareItem⟩

end

/-- A header with most of what a header can have. -/
def assortedHeader : Header where
  typ := none
  alg := .edDSA
  jku := some "\n"
  jwk := some {
    purpose := some "sig"
    operations := some ["sign", "verify"]
    alg := some (.token .edDSA)
    kid := none
    x5u := none
    x5c := none
    x5t := none
    x5tS256 := none
    material := .okp .ed25519 "AA" }
  kid := some "a.b"
  x5c := some ["", "é"]

/-- A header in an order of its own, with a member that means nothing. -/
def looseHeader : Tree :=
  .object [("zip", .list [.null]), ("jwk", .null), ("kid", .text "a.b"), ("alg", .text "EdDSA")]

theorem proper_looseHeader : looseHeader.Proper := by
  have hlist : (Tree.list [.null]).Proper := .list (List.forall_mem_singleton.mpr .null)
  exact .object (by simp [hlist, Tree.Proper.null, Tree.Proper.text])

/-- A token with nested claims, one with a loose header, and a key that has no octets. -/
theorem signed_as_octets_assorted :
    let _ : Scheme := .plain
    let k := SigningKey.numbered 1
    ∃ (p : Parts) (signature key : Bytes),
      encode k.document assortedHeader (.object assortedClaims) = .ok p.token ∧
      p.signature = Base64Url.encode (k.sign p.message) ∧
      Base64Url.decode p.signature = .ok signature ∧ p.ReadsHeader assortedHeader ∧
      p.ReadsObject assortedClaims ∧ k.jwk.decodingKey = .ok key ∧
      decode key p.token = .ok (assortedHeader, .object assortedClaims) ∧
      (∃ q : Parts, q.token = p.token ∧ ∃ octets, Base64Url.decode q.signature = .ok octets ∧
        k.jwk.verify q.message octets = true) ∧
      (∃ q : Parts, q.Holds looseHeader (.object [("sub", .text "a")]) ∧
        decode key q.token =
          .ok ({ typ := none, alg := .edDSA, kid := some "a.b" }, .object [("sub", .text "a")])) ∧
      { k.jwk with x := "*" }.verify p.message signature = false := by
  let _ : Scheme := .plain
  let k := SigningKey.numbered 1
  obtain ⟨hencode, hdecode, hheld, hverify, hrefuse⟩ := signed_as_octets
  obtain ⟨hencodes, hparts⟩ := hencode k assortedHeader (.object assortedClaims)
  obtain ⟨token, htoken⟩ := hencodes.mpr rfl
  obtain ⟨p, rfl, hheader, hclaims, hsignature⟩ := hparts token htoken
  have hreadsHeader : p.ReadsHeader assortedHeader := Parts.readsHeader_of_write hheader
  have hreadsObject : p.ReadsObject assortedClaims :=
    Parts.readsObject_of_write hclaims plain_assortedClaims
  have hoctets : Base64Url.decode p.signature = .ok (k.sign p.message) := by
    rw [hsignature, Base64Url.decode_encode]
  have hsigned := k.verify_sign Scheme.sound_plain
  obtain ⟨key, hkey, haccepted⟩ := hverify k.jwk p (k.sign p.message) assortedHeader
    assortedClaims hoctets (hsigned p.message) hreadsHeader rfl hreadsObject
  have hfit : Claims.NamedOnce assortedClaims ∧ Claims.FitRegistered assortedClaims := by decide
  have hsorted : sortMembers assortedClaims = assortedClaims :=
    sortMembers_of_pairwise (by decide)
  rw [if_pos hfit, hsorted] at haccepted
  obtain ⟨q, octets, hq, hqoctets, hqverify⟩ := hdecode k.jwk key p.token _ _ hkey haccepted
  have hholds := Parts.holds_signedBy k proper_looseHeader
    (.object (List.forall_mem_singleton.mpr (.text "a")) : (Tree.object [("sub", _)]).Proper)
  obtain ⟨other, hother, hloose⟩ :=
    hheld k.jwk _ _ _ _ (Parts.decode_signedBy k) (hsigned _) hholds
  obtain rfl : other = key := Except.ok.inj (hother.symm.trans hkey)
  refine ⟨p, _, other, htoken, hsignature, hoctets, hreadsHeader, hreadsObject, hkey, haccepted,
    ⟨q, hq, octets, hqoctets, hqverify⟩, ⟨_, hholds, hloose.trans rfl⟩, ?_⟩
  exact hrefuse { k.jwk with x := "*" } _ rfl _ _

/-- A token's octets may be verified and all of its parts be well formed, and still it is not
accepted: if its subject is an object, if its header names its key by a number, or if the key in its
header is of a curve for no signatures. -/
theorem well_formed_refused :
    let _ : Scheme := .plain
    let k := SigningKey.numbered 1
    let Refused (header claims : List (String × Tree)) : Prop :=
      ∃ (p : Parts) (signature key : Bytes), Base64Url.decode p.signature = .ok signature ∧
        k.jwk.verify p.message signature = true ∧ p.Holds (.object header) (.object claims) ∧
        k.jwk.decodingKey = .ok key ∧ decode key p.token = .error .json
    Refused [("alg", .text "EdDSA")] [("sub", .object [("id", .numeral [0x37])])] ∧
      Refused [("alg", .text "EdDSA"), ("kid", .numeral [0x37])] [] ∧
      Refused
        [("alg", .text "EdDSA"),
          ("jwk", .object [("kty", .text "OKP"), ("crv", .text "X25519"), ("x", .text "AA")])]
        [] := by
  let _ : Scheme := .plain
  let k := SigningKey.numbered 1
  have hrefused {header claims : List (String × Tree)} (hheader : ∀ m ∈ header, m.2.Proper)
      (hclaims : ∀ m ∈ claims, m.2.Proper)
      (h : ofTrees (.object header) (.object claims) = .error .json) :
      ∃ (p : Parts) (signature key : Bytes), Base64Url.decode p.signature = .ok signature ∧
        k.jwk.verify p.message signature = true ∧ p.Holds (.object header) (.object claims) ∧
        k.jwk.decodingKey = .ok key ∧ decode key p.token = .error .json := by
    have hholds := Parts.holds_signedBy k (.object hheader) (.object hclaims)
    have hverify := k.verify_sign Scheme.sound_plain
      (Parts.signedBy k (.object header) (.object claims)).message
    obtain ⟨key, hkey, hkeyVerify⟩ := Jwk.verify_eq_true_iff.mp hverify
    refine ⟨_, _, key, Parts.decode_signedBy k, hverify, hholds, hkey, ?_⟩
    rw [decode_of_holds hholds ⟨_, Parts.decode_signedBy k, hkeyVerify⟩, h]
  have hseven : (Tree.numeral [0x37]).Proper :=
    .numeral (.positive (.digits (by decide) (by decide) digits_nil) .none .none)
  have hid : (Tree.object [("id", .numeral [0x37])]).Proper :=
    .object (List.forall_mem_singleton.mpr hseven)
  have hkey : (Tree.object [("kty", .text "OKP"), ("crv", .text "X25519"),
      ("x", .text "AA")]).Proper :=
    .object (by simp [Tree.Proper.text])
  refine ⟨hrefused ?_ ?_ rfl, hrefused ?_ ?_ rfl, hrefused ?_ ?_ rfl⟩ <;>
    simp [Tree.Proper.text, hseven, hid, hkey]

end Token

end Keyring
