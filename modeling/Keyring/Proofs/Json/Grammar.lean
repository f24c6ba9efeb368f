import Keyring.Json.Tree
import Keyring.Proofs.Json.Text

namespace Keyring.Json

theorem Tree.text?_eq_some_iff {t : Tree} {s : String} : t.text? = some s ↔ t = .text s := by
  cases t <;> simp [Tree.text?]

def Spaces (b : Bytes) : Prop := ∀ c ∈ b, isSpace c = true

def Digits (b : Bytes) : Prop := ∀ c ∈ b, isDigit c = true

inductive Whole : Bytes → Prop
  | zero : Whole [0x30]
  | digits {d : UInt8} {ds : Bytes} (hd : isDigit d = true) (hne : d ≠ 0x30) (h : Digits ds) :
      Whole (d :: ds)

inductive Fraction : Bytes → Prop
  | none : Fraction []
  | digits {d : UInt8} {ds : Bytes} (hd : isDigit d = true) (h : Digits ds) :
      Fraction (0x2E :: d :: ds)

inductive Exponent : Bytes → Prop
  | none : Exponent []
  | digits {e d : UInt8} {sign ds : Bytes} (he : e = 0x65 ∨ e = 0x45)
      (hsign : sign = [] ∨ sign = [0x2B] ∨ sign = [0x2D]) (hd : isDigit d = true)
      (h : Digits ds) : Exponent (e :: (sign ++ d :: ds))

inductive Numeral : Bytes → Prop
  | positive {w f e : Bytes} (hw : Whole w) (hf : Fraction f) (he : Exponent e) :
      Numeral (w ++ (f ++ e))
  | negative {w f e : Bytes} (hw : Whole w) (hf : Fraction f) (he : Exponent e) :
      Numeral (minusSign :: (w ++ (f ++ e)))

/-- A number below `0x10000` by four hexadecimal digits. -/
inductive FourDigits : Nat → Bytes → Prop
  | mk {a b c d : UInt8} {w x y z : Nat} (ha : hexValue? a = some w) (hb : hexValue? b = some x)
      (hc : hexValue? c = some y) (hd : hexValue? d = some z) :
      FourDigits (((w * 16 + x) * 16 + y) * 16 + z) [a, b, c, d]

/-- How a character can be written between quotes: as it is, by a sign, or by its number, which
takes two escapes if it has more than 16 bits. -/
inductive SpellsChar (c : Char) : Bytes → Prop
  | plain (hquote : c ≠ '"') (hbackslash : c ≠ '\\') (hcontrol : 0x20 ≤ c.toNat) :
      SpellsChar c (String.utf8EncodeChar c)
  | short {sign octet : UInt8} (h : shortEscape? sign = some octet) (hc : octet.toNat = c.toNat) :
      SpellsChar c [backslash, sign]
  | number {digits : Bytes} (h : FourDigits c.toNat digits) :
      SpellsChar c (backslash :: 0x75 :: digits)
  | pair {high low : Bytes} (hlarge : 0x10000 ≤ c.toNat)
      (hhigh : FourDigits (0xD800 + (c.toNat - 0x10000) / 0x400) high)
      (hlow : FourDigits (0xDC00 + (c.toNat - 0x10000) % 0x400) low) :
      SpellsChar c (backslash :: 0x75 :: (high ++ backslash :: 0x75 :: low))

inductive SpellsChars : List Char → Bytes → Prop
  | nil : SpellsChars [] []
  | cons {c : Char} {cs : List Char} {b bs : Bytes} (hc : SpellsChar c b)
      (hcs : SpellsChars cs bs) : SpellsChars (c :: cs) (b ++ bs)

inductive SpellsText (s : String) : Bytes → Prop
  | quoted {b : Bytes} (h : SpellsChars s.toList b) :
      SpellsText s (quoteMark :: (b ++ [quoteMark]))

/-- The parts of a text: a value, a value or a member with the spaces around it, and one or more
items or members up to the bracket that closes them. -/
inductive Part
  | value (t : Tree)
  | item (t : Tree)
  | items (ts : List Tree)
  | member (name : String) (t : Tree)
  | members (ms : List (String × Tree))

/-- The texts of a part, with any spaces and any escapes. -/
inductive Spells : Part → Bytes → Prop
  | null : Spells (.value .null) [0x6E, 0x75, 0x6C, 0x6C]
  | yes : Spells (.value (.bool true)) [0x74, 0x72, 0x75, 0x65]
  | no : Spells (.value (.bool false)) [0x66, 0x61, 0x6C, 0x73, 0x65]
  | numeral {b : Bytes} (h : Numeral b) : Spells (.value (.numeral b)) b
  | text {s : String} {b : Bytes} (h : SpellsText s b) : Spells (.value (.text s)) b
  | emptyList {u : Bytes} (hu : Spaces u) :
      Spells (.value (.list [])) (openList :: (u ++ [closeList]))
  | list {ts : List Tree} {b : Bytes} (h : Spells (.items ts) b) :
      Spells (.value (.list ts)) (openList :: b)
  | emptyObject {u : Bytes} (hu : Spaces u) :
      Spells (.value (.object [])) (openObject :: (u ++ [closeObject]))
  | object {ms : List (String × Tree)} {b : Bytes} (h : Spells (.members ms) b) :
      Spells (.value (.object ms)) (openObject :: b)
  | item {t : Tree} {u b v : Bytes} (hu : Spaces u) (h : Spells (.value t) b) (hv : Spaces v) :
      Spells (.item t) (u ++ (b ++ v))
  | lastItem {t : Tree} {b : Bytes} (h : Spells (.item t) b) :
      Spells (.items [t]) (b ++ [closeList])
  | moreItems {t : Tree} {ts : List Tree} {b bs : Bytes} (h : Spells (.item t) b)
      (hs : Spells (.items ts) bs) : Spells (.items (t :: ts)) (b ++ comma :: bs)
  | member {name : String} {t : Tree} {u n v b : Bytes} (hu : Spaces u) (hn : SpellsText name n)
      (hv : Spaces v) (h : Spells (.item t) b) :
      Spells (.member name t) (u ++ (n ++ (v ++ colon :: b)))
  | lastMember {name : String} {t : Tree} {b : Bytes} (h : Spells (.member name t) b) :
      Spells (.members [(name, t)]) (b ++ [closeObject])
  | moreMembers {name : String} {t : Tree} {ms : List (String × Tree)} {b bs : Bytes}
      (h : Spells (.member name t) b) (hs : Spells (.members ms) bs) :
      Spells (.members ((name, t) :: ms)) (b ++ comma :: bs)

section Bare

variable {name : String} {t : Tree} {n b : Bytes}

theorem spaces_nil : Spaces [] := fun _ h => absurd h List.not_mem_nil

theorem digits_nil : Digits [] := fun _ h => absurd h List.not_mem_nil

theorem Spells.bareItem (h : Spells (.value t) b) : Spells (.item t) b := by
  have hitem := Spells.item spaces_nil h spaces_nil
  rwa [List.nil_append, List.append_nil] at hitem

theorem Spells.bareMember (hn : SpellsText name n) (h : Spells (.value t) b) :
    Spells (.member name t) (n ++ colon :: b) :=
  .member spaces_nil hn spaces_nil h.bareItem

end Bare

/-- A character that needs no escape. -/
def IsPlain (c : Char) : Prop := c ≠ '"' ∧ c ≠ '\\' ∧ 0x20 ≤ c.toNat

instance : DecidablePred IsPlain := fun c =>
  inferInstanceAs (Decidable (c ≠ '"' ∧ c ≠ '\\' ∧ 0x20 ≤ c.toNat))

theorem isPlain_of_all {texts : List String}
    (h : (texts.all fun s => s.toList.all fun c => decide (IsPlain c)) = true) :
    ∀ s ∈ texts, ∀ c ∈ s.toList, IsPlain c := fun s hs c hc =>
  of_decide_eq_true (List.all_eq_true.mp (List.all_eq_true.mp h s hs) c hc)

theorem spellsChars_of_plain {cs : List Char} (h : ∀ c ∈ cs, IsPlain c) :
    SpellsChars cs (cs.flatMap String.utf8EncodeChar) := by
  induction cs with
  | nil => exact .nil
  | cons c cs ih =>
      obtain ⟨hquote, hbackslash, hcontrol⟩ := h c List.mem_cons_self
      rw [List.flatMap_cons]
      have hrest := ih fun d hd => h d (List.mem_cons_of_mem c hd)
      exact .cons (.plain hquote hbackslash hcontrol) hrest

/-- A text without quotes, backslashes and controls is spelled by itself. -/
theorem spellsText_of_plain {s : String} (h : ∀ c ∈ s.toList, IsPlain c) :
    SpellsText s (quoteMark :: (Bytes.ofText s ++ [quoteMark])) := by
  rw [Bytes.ofText_eq]
  exact .quoted (spellsChars_of_plain h)

theorem spells_plainMember {name s : String} (hname : ∀ c ∈ name.toList, IsPlain c)
    (hs : ∀ c ∈ s.toList, IsPlain c) :
    Spells (.member name (.text s)) (quoteMark :: (Bytes.ofText name ++ [quoteMark]) ++
      colon :: quoteMark :: (Bytes.ofText s ++ [quoteMark])) :=
  .bareMember (spellsText_of_plain hname) (.text (spellsText_of_plain hs))

section Reading

variable {text out rest : Bytes} {c : Char}

theorem FourDigits.hexQuad {n : Nat} {digits : Bytes} (h : FourDigits n digits) (rest : Bytes) :
    hexQuad (digits ++ rest) = .ok (n, rest) := by
  cases h with
  | mk ha hb hc hd => simp [Json.hexQuad, ha, hb, hc, hd]

theorem charBytes_char (c : Char) : charBytes c.toNat = String.utf8EncodeChar c := by
  rw [charBytes, Char.ofNat_toNat]

theorem not_surrogate (c : Char) : c.toNat < 0xD800 ∨ 0xDFFF < c.toNat ∧ c.toNat < 0x110000 :=
  c.valid

theorem octet_of_shortEscape? {sign octet : UInt8} (h : shortEscape? sign = some octet) :
    sign ≠ 0x75 ∧ octet.toNat < 128 := by
  unfold shortEscape? at h
  split at h <;> cases h <;> decide

theorem unescape_number {digits : Bytes} (h : FourDigits c.toNat digits) (rest : Bytes) :
    unescape (0x75 :: (digits ++ rest)) = .ok (String.utf8EncodeChar c, rest) := by
  have hvalid := not_surrogate c
  have hnotLow : ¬ (0xDC00 ≤ c.toNat ∧ c.toNat ≤ 0xDFFF) := by omega
  have hnotHigh : ¬ (0xD800 ≤ c.toNat ∧ c.toNat ≤ 0xDBFF) := by omega
  simp only [unescape, if_pos, h.hexQuad, if_neg hnotLow, if_neg hnotHigh, charBytes_char]

theorem unescape_pair {high low : Bytes} (hlarge : 0x10000 ≤ c.toNat)
    (hhigh : FourDigits (0xD800 + (c.toNat - 0x10000) / 0x400) high)
    (hlow : FourDigits (0xDC00 + (c.toNat - 0x10000) % 0x400) low) (rest : Bytes) :
    unescape (0x75 :: (high ++ backslash :: 0x75 :: (low ++ rest))) =
      .ok (String.utf8EncodeChar c, rest) := by
  have hvalid := not_surrogate c
  obtain ⟨q, hq⟩ : ∃ q, q = (c.toNat - 0x10000) / 0x400 := ⟨_, rfl⟩
  obtain ⟨r, hr⟩ : ∃ r, r = (c.toNat - 0x10000) % 0x400 := ⟨_, rfl⟩
  rw [← hq] at hhigh
  rw [← hr] at hlow
  have hnotLow : ¬ (0xDC00 ≤ 0xD800 + q ∧ 0xD800 + q ≤ 0xDFFF) := by omega
  have hisHigh : 0xD800 ≤ 0xD800 + q ∧ 0xD800 + q ≤ 0xDBFF := by omega
  have hisLow : 0xDC00 ≤ 0xDC00 + r ∧ 0xDC00 + r ≤ 0xDFFF := by omega
  have hsum : 0x10000 + (0xD800 + q - 0xD800) * 0x400 + (0xDC00 + r - 0xDC00) = c.toNat := by
    omega
  simp only [unescape, if_pos, hhigh.hexQuad, if_neg hnotLow, if_pos hisHigh, lowSurrogate,
    and_self, hlow.hexQuad, if_pos hisLow, hsum, charBytes_char]

theorem unquote_plain {b : Bytes}
    (hb : ∀ d ∈ b, d ≠ quoteMark ∧ d ≠ backslash ∧ ¬ d < 0x20)
    (h : unquote text = .ok (out, rest)) :
    unquote (b ++ text) = .ok (b ++ out, rest) := by
  induction b with
  | nil => exact h
  | cons d b ih =>
      obtain ⟨hquote, hbackslash, hcontrol⟩ := hb d List.mem_cons_self
      have htail := ih fun e he => hb e (List.mem_cons_of_mem d he)
      have hread : unquote ([d] ++ (b ++ text)) = .ok (d :: (b ++ out), rest) :=
        unquote_written (.plain hquote hbackslash hcontrol) htail
      exact hread

theorem plain_of_mem_utf8EncodeChar (hquote : c ≠ '"') (hbackslash : c ≠ '\\')
    (hcontrol : 0x20 ≤ c.toNat) {d : UInt8} (hd : d ∈ String.utf8EncodeChar c) :
    d ≠ quoteMark ∧ d ≠ backslash ∧ ¬ d < 0x20 := by
  by_cases hascii : c.val.toNat ≤ 0x7F
  · have hencode : String.utf8EncodeChar c = [UInt8.ofNat c.val.toNat] := if_pos hascii
    rw [hencode] at hd
    have hnat : d.toNat = c.toNat := by
      rw [List.mem_singleton.mp hd, UInt8.toNat_ofNat']
      exact Nat.mod_eq_of_lt (by omega)
    refine ⟨?_, ?_, ?_⟩
    · rintro rfl
      exact hquote (Char.toNat_inj.mp hnat.symm)
    · rintro rfl
      exact hbackslash (Char.toNat_inj.mp hnat.symm)
    · intro hlt
      have hlow : d.toNat < 0x20 := hlt
      omega
  · have hge := Bytes.le_toNat_of_mem_utf8EncodeChar hascii hd
    refine ⟨?_, ?_, ?_⟩
    · rintro rfl
      exact absurd hge (by decide)
    · rintro rfl
      exact absurd hge (by decide)
    · intro hlt
      have hlow : d.toNat < 0x20 := hlt
      omega

theorem SpellsChar.unquote {b : Bytes} (hc : SpellsChar c b) (h : unquote text = .ok (out, rest)) :
    unquote (b ++ text) = .ok (String.utf8EncodeChar c ++ out, rest) := by
  cases hc with
  | plain hquote hbackslash hcontrol =>
      exact unquote_plain (fun d hd => plain_of_mem_utf8EncodeChar hquote hbackslash hcontrol hd) h
  | @short sign octet hshort hoctet =>
      obtain ⟨hsign, hlt⟩ := octet_of_shortEscape? hshort
      have hchar : String.utf8EncodeChar c = [octet] := by
        rw [← Char.ofNat_toNat c, ← hoctet]
        exact Bytes.utf8EncodeChar_ofNat hlt
      rw [hchar]
      exact unquote_escape (unescape_short hsign hshort text) h
  | number hdigits => exact unquote_escape (unescape_number hdigits text) h
  | pair hlarge hhigh hlow =>
      have hread := unescape_pair hlarge hhigh hlow text
      simp only [List.cons_append, List.append_assoc]
      exact unquote_escape hread h

theorem SpellsChars.unquote {cs : List Char} {b : Bytes} (h : SpellsChars cs b) (rest : Bytes) :
    unquote (b ++ quoteMark :: rest) = .ok (cs.flatMap String.utf8EncodeChar, rest) := by
  induction h with
  | nil => simp [Json.unquote]
  | cons hc _ ih =>
      rw [List.append_assoc, List.flatMap_cons]
      exact hc.unquote ih

/-- However a text is written, it is read back from behind its first quote. -/
theorem SpellsText.exists_readText {s : String} {b : Bytes} (h : SpellsText s b) (rest : Bytes) :
    ∃ body, b ++ rest = quoteMark :: body ∧ readText body = .ok (s, rest) := by
  cases h with
  | @quoted b h =>
      refine ⟨b ++ quoteMark :: rest, by simp, ?_⟩
      simp only [readText, h.unquote, ← Bytes.ofText_eq, Bytes.toText?_ofText]

end Reading

end Keyring.Json
