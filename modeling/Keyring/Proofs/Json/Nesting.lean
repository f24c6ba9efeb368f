import Keyring.Proofs.Json.Skip

namespace Keyring.Json

/-- What follows the items of a list and all that encloses it, from behind its bracket. -/
def skipItems (enclosing : List Enclosing) (text : Bytes) : Except Fault Bytes :=
  match skipSpace text with
  | [] => .error .endOfText
  | c :: after =>
      if c = closeList then skipRest enclosing after else skipValue (.list :: enclosing) text

/-- What follows the members of an object and all that encloses it, from behind its brace. -/
def skipMembers (enclosing : List Enclosing) (text : Bytes) : Except Fault Bytes :=
  match skipSpace text with
  | [] => .error .endOfText
  | c :: after =>
      if c = closeObject then skipRest enclosing after
      else (skipName text).bind (skipValue (.object :: enclosing))

section Values

variable {enclosing outer : List Enclosing} {text tail after rest : Bytes} {c : UInt8}

-- Each of the three opens the recursion once. Its matches also bind the equations the termination
-- proof needs, so they are split here and not rewritten.
theorem skipValue_cons (hs : skipSpace text = c :: tail) :
    skipValue enclosing text =
      if c = openList then skipItems enclosing tail
      else if c = openObject then skipMembers enclosing tail
      else (skipScalar (c :: tail)).bind (skipRest enclosing) := by
  rw [skipValue]
  split
  · rename_i hnil
    cases hs.symm.trans hnil
  · rename_i hcons
    obtain ⟨rfl, rfl⟩ := List.cons.inj (hs.symm.trans hcons)
    congr 1
    · rw [skipItems]
      split <;> rename_i h <;> rw [h]
    · congr 1
      · rw [skipMembers]
        split <;> rename_i h <;> rw [h]
        congr 1
        split <;> rename_i h <;> rw [h] <;> rfl
      · split <;> rename_i h <;> rw [h] <;> rfl

theorem skipRest_list_cons (hs : skipSpace text = c :: tail) :
    skipRest (.list :: outer) text =
      if c = comma then skipValue (.list :: outer) tail
      else if c = closeList then skipRest outer tail
      else .error .malformed := by
  rw [skipRest]
  split
  · rename_i hnil
    cases hs.symm.trans hnil
  · rename_i hcons
    obtain ⟨rfl, rfl⟩ := List.cons.inj (hs.symm.trans hcons)
    rfl

theorem skipRest_object_cons (hs : skipSpace text = c :: tail) :
    skipRest (.object :: outer) text =
      if c = comma then (skipName tail).bind (skipValue (.object :: outer))
      else if c = closeObject then skipRest outer tail
      else .error .malformed := by
  rw [skipRest]
  split
  · rename_i hnil
    cases hs.symm.trans hnil
  · rename_i hcons
    obtain ⟨rfl, rfl⟩ := List.cons.inj (hs.symm.trans hcons)
    congr 1
    split <;> rename_i h <;> rw [h] <;> rfl

theorem skipRest_nil (text : Bytes) : skipRest [] text = .ok text := by rw [skipRest]

theorem skipValue_scalar (hs : skipSpace text = c :: tail) (hlist : c ≠ openList)
    (hobject : c ≠ openObject) (h : skipScalar (c :: tail) = .ok rest) :
    skipValue enclosing text = skipRest enclosing rest := by
  rw [skipValue_cons hs, if_neg hlist, if_neg hobject, h]
  rfl

theorem skipValue_list (tail : Bytes) :
    skipValue enclosing (openList :: tail) = skipItems enclosing tail := by
  rw [skipValue_cons (skipSpace_cons (by decide) tail), if_pos rfl]

theorem skipValue_object (tail : Bytes) :
    skipValue enclosing (openObject :: tail) = skipMembers enclosing tail := by
  rw [skipValue_cons (skipSpace_cons (by decide) tail), if_neg (by decide), if_pos rfl]

theorem skipValue_spaces {u : Bytes} (hu : Spaces u) :
    skipValue enclosing (u ++ text) = skipValue enclosing text := by
  conv => lhs; rw [skipValue]
  conv => rhs; rw [skipValue]
  rw [skipSpace_spaces hu]

theorem skipName_start (h : skipName text = .ok rest) :
    ∃ after, skipSpace text = quoteMark :: after := by
  unfold skipName at h
  split at h
  · cases h
  · rename_i after hs
    split at h
    · rename_i hquote
      exact ⟨after, hquote ▸ hs⟩
    · cases h

end Values

section Starts

variable {t : Tree} {b : Bytes}

theorem isSpace_of_isDigit {c : UInt8} (h : isDigit c = true) : isSpace c = false := by
  refine Bool.eq_false_iff.mpr fun hspace => ?_
  simp only [isSpace, Bool.or_eq_true, beq_iff_eq] at hspace
  rcases hspace with ((rfl | rfl) | rfl) | rfl <;> exact absurd h (by decide)

theorem Numeral.start (h : Numeral b) : ∃ c body, b = c :: body ∧ isSpace c = false ∧
    c ≠ closeList ∧ c ≠ openList ∧ c ≠ openObject ∧ c ≠ quoteMark ∧ c ≠ 0x6E := by
  have hdigit : ∀ d, isDigit d = true → isSpace d = false ∧
      d ≠ closeList ∧ d ≠ openList ∧ d ≠ openObject ∧ d ≠ quoteMark ∧ d ≠ 0x6E := by
    intro d hd
    refine ⟨isSpace_of_isDigit hd, ?_, ?_, ?_, ?_, ?_⟩ <;>
      (rintro rfl; exact absurd hd (by decide))
  cases h with
  | @positive w f e hw =>
      cases hw with
      | zero => exact ⟨0x30, f ++ e, rfl, by decide⟩
      | @digits d ds hd => exact ⟨d, ds ++ (f ++ e), rfl, hdigit d hd⟩
  | @negative w f e => exact ⟨minusSign, w ++ (f ++ e), rfl, by decide⟩

/-- The first octet of a value tells what kind of value it is. -/
structure Starts (t : Tree) (c : UInt8) : Prop where
  space : isSpace c = false
  close : c ≠ closeList
  null : c = 0x6E ↔ t = .null
  text : c = quoteMark ↔ ∃ s, t = .text s
  list : c = openList ↔ ∃ ts, t = .list ts
  object : c = openObject ↔ ∃ ms, t = .object ms

theorem Spells.starts (h : Spells (.value t) b) : ∃ c body, b = c :: body ∧ Starts t c := by
  cases h with
  | null | yes | no => refine ⟨_, _, rfl, by decide, by decide, ?_, ?_, ?_, ?_⟩ <;> simp <;> decide
  | numeral h =>
      obtain ⟨c, body, rfl, hspace, hclose, hlist, hobject, hquote, hnull⟩ := h.start
      refine ⟨c, body, rfl, hspace, hclose, ?_, ?_, ?_, ?_⟩ <;> simp [*]
  | text h =>
      cases h with
      | quoted => refine ⟨_, _, rfl, by decide, by decide, ?_, ?_, ?_, ?_⟩ <;> simp <;> decide
  | emptyList | list | emptyObject | object =>
      refine ⟨_, _, rfl, by decide, by decide, ?_, ?_, ?_, ?_⟩ <;> simp <;> decide

theorem Spells.start_item (h : Spells (.item t) b) (rest : Bytes) :
    ∃ c after, skipSpace (b ++ rest) = c :: after ∧ c ≠ closeList := by
  cases h with
  | @item t u b v hu h hv =>
      obtain ⟨c, body, rfl, hc⟩ := h.starts
      refine ⟨c, body ++ (v ++ rest), ?_, hc.close⟩
      simp only [List.append_assoc, List.cons_append, skipSpace_spaces_cons hu hc.space]

theorem Spells.start_items {ts : List Tree} (h : Spells (.items ts) b) (rest : Bytes) :
    ∃ c after, skipSpace (b ++ rest) = c :: after ∧ c ≠ closeList := by
  cases h with
  | lastItem h =>
      rw [List.append_assoc]
      exact h.start_item _
  | moreItems h =>
      rw [List.append_assoc]
      exact h.start_item _

theorem Spells.length_items_le {ts : List Tree} (h : Spells (.items ts) b) :
    ts.length ≤ b.length := by
  induction ts generalizing b with
  | nil => exact Nat.zero_le _
  | cons t ts ih =>
      cases h with
      | lastItem =>
          simp only [List.length_append, List.length_cons, List.length_nil]
          omega
      | moreItems h hs =>
          have hrest := ih hs
          simp only [List.length_append, List.length_cons]
          omega

theorem Spells.length_le {ms : List (String × Tree)} (h : Spells (.members ms) b) :
    ms.length ≤ b.length := by
  induction ms generalizing b with
  | nil => exact Nat.zero_le _
  | cons m ms ih =>
      cases h with
      | lastMember =>
          simp only [List.length_append, List.length_cons, List.length_nil]
          omega
      | moreMembers h hs =>
          have hrest := ih hs
          simp only [List.length_append, List.length_cons]
          omega

theorem Spells.start_list {ts : List Tree} (h : Spells (.value (.list ts)) b) :
    ∃ body, b = openList :: body := by
  cases h with
  | emptyList | list => exact ⟨_, rfl⟩

theorem Spells.start_object {ms : List (String × Tree)} (h : Spells (.value (.object ms)) b) :
    ∃ body, b = openObject :: body := by
  cases h with
  | emptyObject | object => exact ⟨_, rfl⟩

end Starts

section Skipping

variable {t : Tree} {b : Bytes}

theorem skipScalar_digit {c : UInt8} (hc : isDigit c = true) (rest : Bytes) :
    skipScalar (c :: rest) = skipNumber (c :: rest) := by
  have hquote : c ≠ quoteMark := by
    rintro rfl
    exact absurd hc (by decide)
  have hminus : c ≠ minusSign := by
    rintro rfl
    exact absurd hc (by decide)
  simp only [skipScalar, if_neg hquote, if_neg hminus, if_pos hc]

theorem Numeral.skipScalar (h : Numeral b) {rest : Bytes} (hrest : EndsNumber rest) :
    skipScalar (b ++ rest) = .ok rest := by
  cases h with
  | @positive w f e hw hf he =>
      have hskip := skipNumber_whole hw hf he hrest
      rw [List.append_assoc, List.append_assoc]
      cases hw with
      | zero => exact (skipScalar_digit (by decide) _).trans hskip
      | digits hd => exact (skipScalar_digit hd _).trans hskip
  | negative hw hf he =>
      have hskip := skipNumber_whole hw hf he hrest
      rw [List.cons_append, List.append_assoc, List.append_assoc, Json.skipScalar,
        if_neg (by decide), if_pos rfl, hskip]

theorem skipName_name {name : String} {u n v : Bytes} (hu : Spaces u) (hn : SpellsText name n)
    (hv : Spaces v) (rest : Bytes) :
    skipName (u ++ (n ++ (v ++ colon :: rest))) = .ok rest := by
  obtain ⟨body, hbody, hskip⟩ := hn.exists_skipText (v ++ colon :: rest)
  have hcolon := skipSpace_spaces_cons hv isSpace_colon rest
  rw [hbody, skipName, skipSpace_spaces_cons hu (by decide)]
  simp only [if_pos, hskip, Except.bind, expectColon, hcolon]

/-- What skipping does with a part and what follows it. A value at the end of a member or an item
leaves the spaces behind it to whatever comes next. -/
def Part.Skips : Part → Bytes → Prop
  | .value _, b => ∀ enclosing rest, EndsNumber rest →
      skipValue enclosing (b ++ rest) = skipRest enclosing rest
  | .item _, b => ∃ v, Spaces v ∧ ∀ enclosing rest, EndsNumber rest →
      skipValue enclosing (b ++ rest) = skipRest enclosing (v ++ rest)
  | .items _, b => ∀ outer rest, skipValue (.list :: outer) (b ++ rest) = skipRest outer rest
  | .member _ _, b => ∃ v, Spaces v ∧ ∀ rest, EndsNumber rest →
      ∃ after, skipName (b ++ rest) = .ok after ∧
        ∀ enclosing, skipValue enclosing after = skipRest enclosing (v ++ rest)
  | .members _, b => ∀ outer rest,
      ∃ after, skipName (b ++ rest) = .ok after ∧
        skipValue (.object :: outer) after = skipRest outer rest

/-- By induction on the text: nothing that stands inside a value makes skipping lose its place. -/
theorem Spells.skips {p : Part} {b : Bytes} (h : Spells p b) : p.Skips b := by
  induction h with
  | null | yes | no =>
      intro enclosing rest _
      exact skipValue_scalar (skipSpace_cons (by decide) _) (by decide) (by decide) rfl
  | numeral h =>
      intro enclosing rest hrest
      have hskip := h.skipScalar hrest
      obtain ⟨c, body, rfl, hspace, -, hlist, hobject, -⟩ := h.start
      exact skipValue_scalar (skipSpace_cons hspace _) hlist hobject hskip
  | text h =>
      intro enclosing rest _
      obtain ⟨body, hbody, hskip⟩ := h.exists_skipText rest
      rw [hbody]
      exact skipValue_scalar (skipSpace_cons (by decide) _) (by decide) (by decide)
        (by rw [skipScalar, if_pos rfl, hskip])
  | @emptyList u hu =>
      intro enclosing rest _
      have hclose := skipSpace_spaces_cons hu isSpace_closeList rest
      rw [List.cons_append, List.append_assoc, List.singleton_append, skipValue_list, skipItems,
        hclose]
      exact if_pos rfl
  | list h ih =>
      intro enclosing rest _
      obtain ⟨c, after, hstart, hne⟩ := h.start_items rest
      rw [List.cons_append, skipValue_list, skipItems, hstart, ← ih enclosing rest]
      exact if_neg hne
  | @emptyObject u hu =>
      intro enclosing rest _
      have hclose := skipSpace_spaces_cons hu isSpace_closeObject rest
      rw [List.cons_append, List.append_assoc, List.singleton_append, skipValue_object,
        skipMembers, hclose]
      exact if_pos rfl
  | object h ih =>
      intro enclosing rest _
      obtain ⟨after, hname, hvalue⟩ := ih enclosing rest
      obtain ⟨tail, hstart⟩ := skipName_start hname
      rw [List.cons_append, skipValue_object, skipMembers, hstart, ← hvalue, hname]
      exact if_neg (by decide)
  | @item t u b v hu h hv ih =>
      refine ⟨v, hv, fun enclosing rest hrest => ?_⟩
      rw [List.append_assoc, skipValue_spaces hu, List.append_assoc]
      exact ih enclosing (v ++ rest) (endsNumber_spaces hv hrest)
  | lastItem h ih =>
      intro outer rest
      obtain ⟨v, hv, hskip⟩ := ih
      rw [List.append_assoc, List.singleton_append,
        hskip _ _ (endsNumber_closeList rest),
        skipRest_list_cons (skipSpace_spaces_cons hv (by decide) rest), if_neg (by decide),
        if_pos rfl]
  | moreItems h hs ih ihs =>
      intro outer rest
      obtain ⟨v, hv, hskip⟩ := ih
      rw [List.append_assoc, List.cons_append,
        hskip _ _ (endsNumber_comma _),
        skipRest_list_cons (skipSpace_spaces_cons hv (by decide) _), if_pos rfl]
      exact ihs outer rest
  | @member name t u n v b hu hn hv h ih =>
      obtain ⟨w, hw, hskip⟩ := ih
      refine ⟨w, hw, fun rest hrest => ⟨b ++ rest, ?_, fun enclosing => hskip enclosing rest hrest⟩⟩
      simp only [List.append_assoc, List.cons_append, skipName_name hu hn hv]
  | lastMember h ih =>
      intro outer rest
      obtain ⟨v, hv, hskip⟩ := ih
      obtain ⟨after, hname, hvalue⟩ :=
        hskip (closeObject :: rest) (endsNumber_closeObject rest)
      refine ⟨after, ?_, ?_⟩
      · rw [List.append_assoc]
        exact hname
      · rw [hvalue, skipRest_object_cons (skipSpace_spaces_cons hv (by decide) rest),
          if_neg (by decide), if_pos rfl]
  | @moreMembers name t ms b bs h hs ih ihs =>
      intro outer rest
      obtain ⟨v, hv, hskip⟩ := ih
      obtain ⟨after, hname, hvalue⟩ :=
        hskip (comma :: (bs ++ rest)) (endsNumber_comma _)
      obtain ⟨next, hnext, hmore⟩ := ihs outer rest
      refine ⟨after, ?_, ?_⟩
      · rw [List.append_assoc]
        exact hname
      · rw [hvalue, skipRest_object_cons (skipSpace_spaces_cons hv (by decide) _), if_pos rfl,
          hnext]
        exact hmore

theorem skipMember_value {u v : Bytes} (hv : Spaces v) (hu : Spaces u)
    (h : Spells (.value t) b) {rest : Bytes} (hrest : EndsNumber rest) :
    skipMember (v ++ colon :: (u ++ (b ++ rest))) = .ok rest := by
  have hcolon := skipSpace_spaces_cons hv isSpace_colon (u ++ (b ++ rest))
  simp only [skipMember, expectColon, hcolon, if_pos, Except.bind]
  rw [skipValue_spaces hu, h.skips [] rest hrest, skipRest_nil]

end Skipping

end Keyring.Json
