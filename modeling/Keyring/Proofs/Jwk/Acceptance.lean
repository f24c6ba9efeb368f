import Keyring.Proofs.Json.Fields
import Keyring.Proofs.Jwk

namespace Keyring.Jwk

open Json

theorem Member.ofName?_eq_some_iff {name : String} {m : Member} :
    Member.ofName? name = some m ↔ m.name = name := by
  constructor
  · intro h
    exact beq_iff_eq.mp (List.find?_some (p := fun m : Member => m.name == name) h)
  · rintro rfl
    exact Member.ofName?_name m

/-- Each member of a key is a text. -/
def fields : Fields Member fun _ => String :=
  ⟨Member.name, Member.ofName?, Member.ofName?_eq_some_iff, fun _ => Tree.text?⟩

section Reading

variable {t : Tree} {u b rest : Bytes}

theorem readString_value (hu : Spaces u) (h : Spells (.value t) b) (rest : Bytes) :
    (readString (u ++ (b ++ rest))).toOption = t.text?.map (·, rest) := by
  obtain ⟨c, body, hb, hc⟩ := h.starts
  by_cases hquote : c = quoteMark
  · obtain ⟨s, rfl⟩ := hc.text.mp hquote
    cases h with
    | text h =>
        obtain ⟨body, hbody, hread⟩ := h.exists_readText rest
        rw [hbody, readString, skipSpace_spaces_cons hu (by decide)]
        simp only [if_pos, hread]
        rfl
  · have hnone : t.text? = none := by
      refine Option.eq_none_iff_forall_ne_some.mpr fun s hs => hquote ?_
      exact hc.text.mpr ⟨s, Tree.text?_eq_some_iff.mp hs⟩
    rw [hb, List.cons_append, readString, skipSpace_spaces_cons hu hc.space, hnone]
    simp only [if_neg hquote]
    rfl

theorem Draft.set_eq_update (d : Draft) (m : Member) (s : String) :
    d.set m s = Function.update d m (some s) := by
  funext k
  simp only [Draft.set, Function.update_apply]

theorem toOption_takeMember (name : String) (d : Draft) (text : Bytes) :
    (takeMember name d text).toOption =
      fields.take? (fun _ text => (readString text).toOption) name d text := by
  cases hname : Member.ofName? name with
  | none =>
      simp only [takeMember, Fields.take?, fields, hname]
      cases skipMember text <;> rfl
  | some m =>
      simp only [takeMember, Fields.take?, fields, hname, Draft.set_eq_update]
      split
      · rfl
      · cases expectColon text with
        | error fault => rfl
        | ok rest =>
            simp only [ofJson, bind, Except.bind, Except.toOption, Option.bind_some]
            cases readString rest <;> rfl

theorem takes_member : Takes takeMember fields.place :=
  fields.takes toOption_takeMember fun _ _ _ _ rest hu h _ => readString_value hu h rest

end Reading

theorem Draft.complete_eq_ok_iff (d : Draft) (k : Jwk) :
    d.complete = .ok k ↔ ∀ m, d m = some (k.get m) := by
  unfold Draft.complete
  split
  · rename_i m hmissing
    have hm := List.find?_some (p := fun m => (d m).isNone) hmissing
    constructor
    · intro h
      cases h
    · intro h
      rw [h m] at hm
      cases hm
  · rename_i hnone
    have hsome : ∀ m, d m = some ((d m).getD "") := by
      intro m
      have hm := List.find?_eq_none.mp hnone m (Member.mem_all m)
      cases hd : d m with
      | none =>
          rw [hd] at hm
          exact absurd rfl hm
      | some s => rfl
    constructor
    · intro h m
      cases h
      rw [hsome m]
      cases m <;> rfl
    · intro h
      have hget : (fun m => (d m).getD "") = k.get := by
        funext m
        rw [h m]
        rfl
      rw [hget, ofMembers_get]

theorem read_eq_ok_iff {text : Bytes} {ms : List (String × Tree)}
    (h : Spells (.item (.object ms)) text) (k : Jwk) :
    read text = .ok k ↔ ∃ d, fields.fill Draft.empty ms = some d ∧ ∀ m, d m = some (k.get m) := by
  cases h with
  | @item _ u o v hu h hv =>
      obtain ⟨b, rfl⟩ := h.start_object
      have hfold : (foldObject Fault.json takeMember Draft.empty (b ++ v)).toOption =
          (fields.fill Draft.empty ms).map (·, v) :=
        takes_member.object h Draft.empty v
      have hend : skipSpace v = [] := by
        have hskip := skipSpace_spaces hv []
        rwa [List.append_nil] at hskip
      rw [List.cons_append, read, skipSpace_spaces_cons hu (by decide)]
      simp only [if_pos, readObject, bind, Except.bind, pure, Except.pure]
      cases hmembers : foldObject Fault.json takeMember Draft.empty (b ++ v) with
      | error fault =>
          rw [hmembers] at hfold
          rw [Option.map_eq_none_iff.mp hfold.symm]
          simp
      | ok found =>
          rw [hmembers] at hfold
          obtain ⟨d, hd, rfl⟩ := Option.map_eq_some_iff.mp hfold.symm
          simp only [hd, Option.some.injEq, exists_eq_left', ← Draft.complete_eq_ok_iff]
          cases Draft.complete d with
          | error fault => simp
          | ok found => simp [hend]

theorem content?_eq_some_iff {m : Member} {ts : List Tree} {s : String} :
    fields.content? (fun _ => none) m ts = some s ↔ ts = [.text s] := by
  rcases ts with _ | ⟨t, _ | ⟨other, more⟩⟩
  · simp [Fields.content?]
  · exact Tree.text?_eq_some_iff.trans (List.singleton_inj.symm)
  · simp [Fields.content?]

theorem ofText_eq_ok_iff_named {text : String} {members : List (String × Tree)}
    (h : Spells (.item (.object members)) (Bytes.ofText text)) (k : Jwk) :
    ofText text = .ok k ↔ ∀ m : Member, named m.name members = [.text (k.get m)] := by
  have hfound := fields.exists_fill_iff members (fun _ => none) k.get
  simp only [Option.or_none, content?_eq_some_iff] at hfound
  exact (read_eq_ok_iff h k).trans hfound

/-- The text of an object, however it is written, is a key exactly if each member of the key stands
in it once with a text. Neither its other members nor the order of the members matter. -/
theorem ofText_object {text : String} {members : List (String × Tree)}
    (h : Spells (.item (.object members)) (Bytes.ofText text)) :
    ((∃ k, ofText text = .ok k) ↔ ∀ m : Member, ∃ s, named m.name members = [.text s]) ∧
      (∀ k, ofText text = .ok k ↔ ∀ m : Member, named m.name members = [.text (k.get m)]) ∧
      ∀ (other : String) (others : List (String × Tree)),
        Spells (.item (.object others)) (Bytes.ofText other) →
        (∀ m : Member, (named m.name others).Perm (named m.name members)) →
        (ofText other).toOption = (ofText text).toOption := by
  refine ⟨⟨?_, ?_⟩, ofText_eq_ok_iff_named h, ?_⟩
  · rintro ⟨k, hk⟩ m
    exact ⟨k.get m, (ofText_eq_ok_iff_named h k).mp hk m⟩
  · intro hnamed
    obtain ⟨get, hget⟩ := Classical.skolem.mp hnamed
    exact ⟨ofMembers get, (ofText_eq_ok_iff_named h _).mpr fun m => by cases m <;> exact hget _⟩
  · intro other others hother hperm
    refine Option.ext fun k => ?_
    rw [Except.toOption_eq_some_iff, Except.toOption_eq_some_iff, ofText_eq_ok_iff_named hother,
      ofText_eq_ok_iff_named h]
    refine forall_congr' fun m => ⟨fun hm => ?_, fun hm => ?_⟩
    · exact List.perm_singleton.mp (hm ▸ (hperm m).symm)
    · exact List.perm_singleton.mp (hm ▸ hperm m)

/-- A key with an escaped name, spaces and another member that holds what looks like one of its. -/
def disguised : String :=
  "\x7b\"x\":\"AA\", \"k\\u0069d\":\"1\",\"kty\":\"OKP\",\"crv\":\"Ed25519\"," ++
    "\"use_\":[\x7b\"kid\":-1.5\x7d],\"use\":\"sig\",\"alg\":\"EdDSA\"\x7d"

def disguisedMembers : List (String × Tree) :=
  [("x", .text "AA"), ("kid", .text "1"), ("kty", .text "OKP"), ("crv", .text "Ed25519"),
    ("use_", .list [.object [("kid", .numeral [0x2D, 0x31, 0x2E, 0x35])]]),
    ("use", .text "sig"), ("alg", .text "EdDSA")]

theorem spells_escapedKid :
    SpellsText "kid" [0x22, 0x6B, 0x5C, 0x75, 0x30, 0x30, 0x36, 0x39, 0x64, 0x22] := by
  have hdigits : FourDigits 'i'.toNat [0x30, 0x30, 0x36, 0x39] :=
    FourDigits.mk (w := 0) (x := 0) (y := 6) (z := 9) rfl rfl rfl rfl
  have hk : SpellsChar 'k' [0x6B] := .plain (by decide) (by decide) (by decide)
  have hi : SpellsChar 'i' [0x5C, 0x75, 0x30, 0x30, 0x36, 0x39] := .number hdigits
  have hd : SpellsChar 'd' [0x64] := .plain (by decide) (by decide) (by decide)
  have hchars : "kid".toList = ['k', 'i', 'd'] := by decide +kernel
  have hspells := SpellsChars.cons hk (.cons hi (.cons hd .nil))
  rw [← hchars] at hspells
  exact .quoted hspells

theorem spells_disguised : Spells (.item (.object disguisedMembers)) (Bytes.ofText disguised) := by
  have hplain : ∀ s ∈ ["1", "x", "AA", "kid", "kty", "OKP", "crv", "Ed25519", "use_", "use", "sig",
      "alg", "EdDSA"], ∀ c ∈ s.toList, IsPlain c :=
    isPlain_of_all (by decide +kernel)
  have hnumber : Numeral [0x2D, 0x31, 0x2E, 0x35] := by
    have hwhole : Whole [0x31] := .digits (by decide) (by decide) digits_nil
    have hfraction : Fraction [0x2E, 0x35] := .digits (by decide) digits_nil
    exact .negative hwhole hfraction .none
  have hspace : Spaces [0x20] := by simp [Spaces, isSpace]
  have hone := Spells.text (spellsText_of_plain (hplain "1" (by decide)))
  have hkid := Spells.member hspace spells_escapedKid spaces_nil hone.bareItem
  have hname := spellsText_of_plain (hplain "kid" (by decide))
  have hinner := Spells.bareMember hname (.numeral hnumber)
  have hlist := Spells.list (.lastItem (Spells.object (.lastMember hinner)).bareItem)
  have hother := Spells.bareMember (spellsText_of_plain (hplain "use_" (by decide))) hlist
  have hx := spells_plainMember (hplain "x" (by decide)) (hplain "AA" (by decide))
  have hkty := spells_plainMember (hplain "kty" (by decide)) (hplain "OKP" (by decide))
  have hcrv := spells_plainMember (hplain "crv" (by decide)) (hplain "Ed25519" (by decide))
  have huse := spells_plainMember (hplain "use" (by decide)) (hplain "sig" (by decide))
  have halg := spells_plainMember (hplain "alg" (by decide)) (hplain "EdDSA" (by decide))
  have h := Spells.object (.moreMembers hx (.moreMembers hkid (.moreMembers hkty
    (.moreMembers hcrv (.moreMembers hother (.moreMembers huse (.lastMember halg)))))))
  refine Eq.mp (congrArg _ ?_) h.bareItem
  decide +kernel

theorem ofText_object_disguised :
    Spells (.item (.object disguisedMembers)) (Bytes.ofText disguised) ∧
      ofText disguised = .ok ⟨"1", "OKP", "Ed25519", "AA", "sig", "EdDSA"⟩ :=
  ⟨spells_disguised, ((ofText_object spells_disguised).2.1 _).mpr fun m => by
    cases m <;> simp [named, disguisedMembers, Member.name, Jwk.get]⟩

end Keyring.Jwk
