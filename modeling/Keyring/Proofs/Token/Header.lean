import Keyring.Proofs.Token.EmbeddedKey
import Keyring.Token.Header

namespace Keyring

namespace Json.Tree

variable {α : Type}

def texts? : Tree → Option (List String)
  | .list ts => ts.mapM text?
  | _ => none

/-- Null stands for nothing where something else may stand for `a`. -/
def orNull? (mean : Tree → Option α) : Tree → Option (Option α)
  | .null => some none
  | t => (mean t).map some

theorem orNull?_of_ne_null (mean : Tree → Option α) {t : Tree} (h : t ≠ .null) :
    t.orNull? mean = (mean t).map some := by
  cases t with
  | null => exact absurd rfl h
  | _ => rfl

def null? : Tree → Option Unit
  | .null => some ()
  | _ => none

theorem null?_of_ne_null {t : Tree} (h : t ≠ .null) : t.null? = none := by
  cases t with
  | null => exact absurd rfl h
  | _ => rfl

theorem texts?_texts (ss : List String) : (texts ss).texts? = some ss := by
  have hitems : (ss.map Tree.text).mapM text? = some (ss.map id) :=
    mapM_map_some (f := Tree.text) (k := id) (fun _ => rfl) ss
  rw [texts, texts?, hitems, List.map_id]

theorem texts?_of_ne_list {t : Tree} (h : ¬ ∃ ts, t = .list ts) : t.texts? = none := by
  cases t with
  | list ts => exact absurd ⟨ts, rfl⟩ h
  | _ => rfl

theorem text?_of_ne_text {t : Tree} (h : ¬ ∃ s, t = .text s) : t.text? = none := by
  cases t with
  | text s => exact absurd ⟨s, rfl⟩ h
  | _ => rfl

end Json.Tree

namespace Token

open Json

def Algorithm.ofTree? : Tree → Option Algorithm
  | .object [(name, t)] => t.null?.bind fun _ => ofName? name
  | t => t.text?.bind ofName?

theorem Algorithm.ofTree?_of_ne_object {t : Tree} (h : ¬ ∃ ms, t = .object ms) :
    ofTree? t = t.text?.bind ofName? := by
  cases t with
  | object ms => exact absurd ⟨ms, rfl⟩ h
  | _ => rfl

namespace Header

section Readers

variable {t : Tree} {c : UInt8} {body rest : Bytes}

theorem reads_string : Reads readString Tree.text? := by
  refine .of_start (fun _ => rfl) fun {t c body} hb hc rest _ => ?_
  by_cases hquote : c = quoteMark
  · obtain ⟨s, rfl⟩ := hc.text.mp hquote
    cases hb with
    | text h =>
        obtain ⟨more, hmore, hread⟩ := h.exists_readText rest
        obtain rfl : body ++ rest = more := (List.cons.inj hmore).2
        rw [if_pos hquote, hread]
        rfl
  · rw [if_neg hquote, Tree.text?_of_ne_text (mt hc.text.mpr hquote)]
    rfl

theorem reads_strings : Reads readStrings Tree.texts? := by
  refine .of_start (fun _ => rfl) fun {t c body} hb hc rest _ => ?_
  by_cases hlist : c = openList
  · obtain ⟨ts, rfl⟩ := hc.list.mp hlist
    subst hlist
    rw [if_pos rfl]
    exact reads_string.list hb rest
  · rw [if_neg hlist, Tree.texts?_of_ne_list (mt hc.list.mpr hlist)]
    rfl

theorem expectWord_null (hb : Spells (.value .null) (c :: body)) (rest : Bytes) :
    expectWord null (body ++ rest) = .ok rest := by
  cases hb
  rfl

theorem reads_null : Reads readNull Tree.null? := by
  refine .of_start (fun _ => rfl) fun {t c body} hb hc rest _ => ?_
  by_cases hnull : c = 0x6E
  · obtain rfl := hc.null.mp hnull
    rw [if_pos hnull, expectWord_null hb]
    rfl
  · rw [if_neg hnull, Tree.null?_of_ne_null (mt hc.null.mpr hnull)]
    rfl

theorem reads_optional {α : Type} {read : Bytes → Except Fault (α × Bytes)}
    {mean : Tree → Option α} (h : Reads read mean) :
    Reads (readOptional read) (Tree.orNull? mean) := by
  refine .of_start (fun _ => rfl) fun {t c body} hb hc rest hrest => ?_
  by_cases hnull : c = 0x6E
  · obtain rfl := hc.null.mp hnull
    rw [if_pos hnull, expectWord_null hb]
    rfl
  · have hread := h.value t _ hb rest hrest
    rw [List.cons_append] at hread
    rw [if_neg hnull, Except.toOption_map, hread, Tree.orNull?_of_ne_null _ (mt hc.null.mpr hnull),
      Option.map_map, Option.map_map]
    rfl

theorem toOption_ofName (name : String) : (ofName name).toOption = Algorithm.ofName? name := by
  unfold ofName
  split <;> rename_i h <;> rw [h] <;> rfl

theorem readAlgorithm_object {ms : List (String × Tree)}
    (h : Spells (.value (.object ms)) (openObject :: body)) (rest : Bytes) :
    (readAlgorithm (openObject :: (body ++ rest))).toOption =
      (Algorithm.ofTree? (.object ms)).map (·, rest) := by
  rw [readAlgorithm, skipSpace_cons (by decide)]
  simp only [if_pos]
  rw [Except.toOption_bind]
  cases h with
  | @emptyObject u hu =>
      have hclose := skipSpace_spaces_cons hu isSpace_closeObject rest
      rw [List.append_assoc, List.singleton_append, readMember, hclose]
      rfl
  | object h =>
      cases h with
      | @lastMember name t b h =>
          obtain ⟨v, hv, hread⟩ := reads_null.member h
          have hends := endsNumber_closeObject rest
          have hclose := skipSpace_spaces_cons hv isSpace_closeObject rest
          rw [List.append_assoc, List.singleton_append, hread _ hends, memberMeaning,
            Algorithm.ofTree?]
          cases t.null? with
          | none => rfl
          | some =>
              simp only [Option.map_some, Option.bind_some, hclose, if_pos]
              rw [Except.toOption_map, toOption_ofName]
      | @moreMembers name t ms b bs h hs =>
          obtain ⟨v, hv, hread⟩ := reads_null.member h
          have hends := endsNumber_comma (bs ++ rest)
          have hcomma := skipSpace_spaces_cons hv isSpace_comma (bs ++ rest)
          rw [List.append_assoc, List.cons_append, hread _ hends, memberMeaning]
          have hnone : Algorithm.ofTree? (.object ((name, t) :: ms)) = none := by
            cases ms with
            | nil => cases hs
            | cons m ms => rfl
          rw [hnone]
          cases t.null? with
          | none => rfl
          | some =>
              simp only [Option.map_some, Option.bind_some, hcomma]
              rfl

theorem reads_algorithm : Reads readAlgorithm Algorithm.ofTree? := by
  refine .of_start (fun _ => rfl) fun {t c body} hb hc rest hrest => ?_
  by_cases hobject : c = openObject
  · obtain ⟨ms, rfl⟩ := hc.object.mp hobject
    subst hobject
    have hread := readAlgorithm_object hb rest
    rw [readAlgorithm, skipSpace_cons (by decide)] at hread
    exact hread
  · rw [if_neg hobject, Except.toOption_bind, ← List.cons_append,
      reads_string.value t _ hb rest hrest,
      Algorithm.ofTree?_of_ne_object (mt hc.object.mpr hobject)]
    cases t.text? with
    | none => rfl
    | some s =>
        simp only [Option.map_some, Option.bind_some]
        rw [Except.toOption_map, toOption_ofName]

end Readers

/-- What a value under a name of the header's stands for. -/
def Member.mean? : (m : Member) → Tree → Option m.Content
  | .alg => Algorithm.ofTree?
  | .jwk => Tree.orNull? (EmbeddedKey.ofTree? keyDepth)
  | .x5c => Tree.orNull? Tree.texts?
  | .typ | .cty | .jku | .kid | .x5u | .x5t | .x5tS256 => Tree.orNull? Tree.text?

theorem Member.reads (m : Member) : Reads m.read m.mean? := by
  cases m with
  | alg => exact reads_algorithm
  | jwk => exact reads_optional (EmbeddedKey.reads keyDepth)
  | x5c => exact reads_optional reads_strings
  | typ | cty | jku | kid | x5u | x5t | x5tS256 => exact reads_optional reads_string

theorem Member.ofName?_eq_some_iff {name : String} {m : Member} :
    Member.ofName? name = some m ↔ m.name = name := by
  constructor
  · intro h
    exact beq_iff_eq.mp (List.find?_some (p := fun m : Member => m.name == name) h)
  · rintro rfl
    exact Member.ofName?_name m

def fields : Fields Member Member.Content :=
  ⟨Member.name, Member.ofName?, Member.ofName?_eq_some_iff, Member.mean?⟩

/-- The header with these members. Each of its names may stand once, with a value for what the
header has there; under any other name anything may stand. -/
def ofMembers? (ms : List (String × Tree)) : Option Header :=
  ofContents? fun m => fields.content? Member.absent? m (named m.name ms)

theorem ofContents?_eq_some_iff {f : (m : Member) → Option m.Content} {h : Header} :
    ofContents? f = some h ↔ ∀ m, f m = some (h.get m) := by
  constructor
  · intro hsome
    simp only [ofContents?, Option.bind_eq_bind, Option.bind_eq_some_iff, Option.pure_def,
      Option.some.injEq] at hsome
    obtain ⟨typ, htyp, alg, halg, cty, hcty, jku, hjku, jwk, hjwk, kid, hkid, x5u, hx5u, x5c, hx5c,
      x5t, hx5t, x5tS256, hx5tS256, rfl⟩ := hsome
    intro m
    cases m <;> assumption
  · intro hf
    simp only [ofContents?, hf]
    rfl

section Object

variable {t : Tree} {ts : List Tree} {b : Bytes}

theorem Draft.set_eq_update (d : Draft) (m : Member) (c : m.Content) :
    d.set m c = Function.update d m (some c) := by
  funext k
  by_cases h : k = m
  · subst h
    simp [Draft.set]
  · simp [Draft.set, h]

theorem toOption_takeMember (name : String) (d : Draft) (text : Bytes) :
    (takeMember name d text).toOption =
      fields.take? (fun m text => (m.read text).toOption) name d text := by
  cases hname : Member.ofName? name with
  | none =>
      simp only [takeMember, Fields.take?, fields, hname, Except.toOption_map]
  | some m =>
      simp only [takeMember, Fields.take?, fields, hname]
      split
      · rfl
      · cases expectColon text with
        | error fault => rfl
        | ok rest =>
            simp only [Except.bind, takeValue, Except.toOption_map, Draft.set_eq_update]
            rfl

theorem takes_member : Takes takeMember fields.place := by
  refine fields.takes toOption_takeMember fun m t u b rest hu h hrest => ?_
  rw [m.reads.spaces u _ hu]
  exact m.reads.value t b h rest hrest

theorem complete?_of_fill (ms : List (String × Tree)) :
    (fields.fill Draft.empty ms).bind Draft.complete? = ofMembers? ms := by
  refine Option.ext fun h => ?_
  rw [ofMembers?, ofContents?_eq_some_iff, Option.bind_eq_some_iff]
  refine Iff.trans ?_ (fields.exists_fill_iff ms Member.absent? h.get)
  exact exists_congr fun d => and_congr_right fun _ => ofContents?_eq_some_iff

theorem takeValue_item (m : Member) (d : Draft) (h : Spells (.item t) b) : ∃ v, Spaces v ∧
    ∀ rest, EndsNumber rest → (takeValue m d (b ++ rest)).toOption =
      (m.mean? t).map fun c => (d.set m c, v ++ rest) := by
  obtain ⟨v, hv, hread⟩ := m.reads.item h
  refine ⟨v, hv, fun rest hrest => ?_⟩
  rw [takeValue, Except.toOption_map, hread rest hrest, Option.map_map]
  rfl

section Items

variable {m : Member} {ms : List Member} {d : Draft}

theorem readItems_last (h : Spells (.item t) b) (rest : Bytes) :
    (readItems (m :: ms) d (b ++ closeList :: rest)).toOption =
      (m.mean? t).bind fun c => if ms = [] then some (d.set m c, rest) else none := by
  obtain ⟨v, hv, htake⟩ := takeValue_item m d h
  have hclose := skipSpace_spaces_cons hv isSpace_closeList rest
  rw [readItems, Except.toOption_bind, htake _ (endsNumber_closeList rest)]
  cases m.mean? t with
  | none => rfl
  | some c =>
      simp only [Option.map_some, Option.bind_some, hclose, true_and]
      split
      · rfl
      · rw [if_neg (by decide)]
        rfl

theorem readItems_more (h : Spells (.item t) b) (rest : Bytes) :
    (readItems (m :: ms) d (b ++ comma :: rest)).toOption =
      (m.mean? t).bind fun c => (readItems ms (d.set m c) rest).toOption := by
  obtain ⟨v, hv, htake⟩ := takeValue_item m d h
  have hcomma := skipSpace_spaces_cons hv isSpace_comma rest
  rw [readItems, Except.toOption_bind, htake _ (endsNumber_comma rest)]
  cases m.mean? t with
  | none => rfl
  | some c =>
      simp only [Option.map_some, Option.bind_some, hcomma]
      rw [if_neg fun h => absurd h.1 (by decide), if_pos trivial]

theorem fill_cons_new (h : d m = none) (t : Tree) (more : List (String × Tree)) :
    fields.fill d ((m.name, t) :: more) =
      (m.mean? t).bind fun c => fields.fill (d.set m c) more := by
  have hplace : fields.place d (m.name, t) = (m.mean? t).map (d.set m) := by
    simp [Fields.place, fields, Member.ofName?_name, h, ← Draft.set_eq_update]
  rw [Fields.fill, List.foldlM_cons, hplace]
  cases m.mean? t <;> rfl

/-- The items of a list are taken for members of the names in their order. -/
theorem readItems_items (hms : ms.Nodup) (hnew : ∀ m ∈ ms, d m = none)
    (h : Spells (.items ts) b) (rest : Bytes) :
    (readItems ms d (b ++ rest)).toOption =
      if ts.length = ms.length then
        (fields.fill d ((ms.map Member.name).zip ts)).map (·, rest)
      else none := by
  induction ts generalizing ms d b with
  | nil => cases h
  | cons t ts ih =>
      cases ms with
      | nil => rfl
      | cons m ms =>
          obtain ⟨hm, hms⟩ := List.nodup_cons.mp hms
          rw [List.map_cons, List.zip_cons_cons, fill_cons_new (hnew m List.mem_cons_self),
            Option.map_bind]
          cases h with
          | lastItem ht =>
              rw [List.append_assoc, List.singleton_append, readItems_last ht]
              cases ms with
              | nil => rfl
              | cons next ms => simp
          | @moreItems t ts b bs ht hs =>
              have hset (c : m.Content) : ∀ k ∈ ms, d.set m c k = none := by
                intro k hk
                have hne : k ≠ m := fun h => hm (h ▸ hk)
                rw [Draft.set, dif_neg hne]
                exact hnew k (List.mem_cons_of_mem m hk)
              rw [List.append_assoc, List.cons_append, readItems_more ht]
              simp only [ih hms (hset _) hs, List.length_cons, Nat.add_right_cancel_iff]
              split
              · rfl
              · cases m.mean? t <;> rfl

end Items

/-- The header that a value stands for. A list is taken for an object with all of a header's
names, in their order. -/
def ofTree? : Tree → Option Header
  | .object ms => ofMembers? ms
  | .list ts =>
      if ts.length = Member.all.length then ofMembers? ((Member.all.map Member.name).zip ts)
      else none
  | _ => none

def draft? : Tree → Option Draft
  | .object ms => fields.fill Draft.empty ms
  | .list ts =>
      if ts.length = Member.all.length then
        fields.fill Draft.empty ((Member.all.map Member.name).zip ts)
      else none
  | _ => none

theorem reads_draft : Reads readDraft draft? := by
  refine .of_start (fun _ => rfl) fun {t c body} hb hc rest hrest => ?_
  by_cases hobject : c = openObject
  · obtain ⟨ms, rfl⟩ := hc.object.mp hobject
    subst hobject
    rw [if_pos rfl]
    exact takes_member.object hb Draft.empty rest
  · rw [if_neg hobject]
    by_cases hlist : c = openList
    · obtain ⟨ts, rfl⟩ := hc.list.mp hlist
      subst hlist
      rw [if_pos rfl]
      cases hb with
      | @emptyList u hu =>
          have hclose := skipSpace_spaces_cons hu isSpace_closeList rest
          have hrefused : takeValue .typ Draft.empty (u ++ closeList :: rest) =
              .error .malformed := by
            rw [takeValue, Member.read, readOptional, hclose]
            rfl
          rw [List.append_assoc, List.singleton_append, Member.all, readItems, hrefused]
          rfl
      | list hs =>
          refine (readItems_items (by decide) (fun _ _ => rfl) hs rest).trans ?_
          rw [draft?]
          split <;> rfl
    · rw [if_neg hlist]
      have hnone : draft? t = none := by
        cases t with
        | list ts => exact absurd (hc.list.mpr ⟨ts, rfl⟩) hlist
        | object ms => exact absurd (hc.object.mpr ⟨ms, rfl⟩) hobject
        | _ => rfl
      rw [hnone]
      rfl

theorem draft?_bind_complete? (t : Tree) : (draft? t).bind Draft.complete? = ofTree? t := by
  cases t with
  | object ms => exact complete?_of_fill ms
  | list ts =>
      rw [draft?, ofTree?]
      split
      · exact complete?_of_fill _
      · rfl
  | _ => rfl

theorem toOption_complete (d : Draft) : (Draft.complete d).toOption = Draft.complete? d := by
  unfold Draft.complete
  cases Draft.complete? d <;> rfl

/-- A value, however it is written, is read as the header that it stands for. -/
theorem toOption_read {text : Bytes} (h : Spells (.item t) text) :
    (read text).toOption = ofTree? t := by
  rw [← draft?_bind_complete?]
  exact (reads_draft.whole h Draft.complete).trans (congrArg _ (funext toOption_complete))

end Object

section Written

theorem Member.mem_all (m : Member) : m ∈ Member.all := by cases m <;> decide

theorem named_members (h : Header) (m : Member) :
    named m.name h.members = (m.tree? (h.get m)).toList :=
  fields.named_listed (fun m => m.tree? (h.get m)) (by decide) m.mem_all

/-- What is written of a header's member is what is found of it. -/
theorem content?_tree? (m : Member) (c : m.Content) :
    fields.content? Member.absent? m (m.tree? c).toList = some c := by
  cases m with
  | alg => exact Algorithm.ofName?_name c
  | jwk =>
      cases c with
      | none => rfl
      | some k => exact congrArg (Option.map some) (k.ofTree?_members (keyDepth - 1))
  | x5c =>
      cases c with
      | none => rfl
      | some ss => exact congrArg (Option.map some) (Tree.texts?_texts ss)
  | typ | cty | jku | kid | x5u | x5t | x5tS256 => cases c <;> rfl

theorem spells_tree? {m : Member} {c : m.Content} {t : Tree} (h : m.tree? c = some t) :
    Spells (.value t) t.write := by
  cases m with
  | alg =>
      cases h
      exact spells_text _
  | jwk =>
      obtain ⟨k, -, rfl⟩ := Option.map_eq_some_iff.mp h
      exact k.spells_members
  | x5c =>
      obtain ⟨ss, -, rfl⟩ := Option.map_eq_some_iff.mp h
      exact spells_texts ss
  | typ | cty | jku | kid | x5u | x5t | x5tS256 =>
      obtain ⟨s, -, rfl⟩ := Option.map_eq_some_iff.mp h
      exact spells_text s

theorem spells_write (h : Header) : Spells (.value (.object h.members)) h.write := by
  refine spells_object fun member hmember => ?_
  obtain ⟨m, -, hm⟩ := List.mem_filterMap.mp hmember
  obtain ⟨t, ht, rfl⟩ := Option.map_eq_some_iff.mp hm
  exact spells_tree? ht

theorem ofMembers?_members (h : Header) : ofMembers? h.members = some h := by
  rw [ofMembers?, ofContents?_eq_some_iff]
  intro m
  rw [named_members, content?_tree?]

/-- A header that is written is read back. -/
theorem read_write (h : Header) : read h.write = .ok h := by
  refine Except.toOption_eq_some_iff.mp ?_
  rw [toOption_read h.spells_write.bareItem, ofTree?, ofMembers?_members]

end Written

end Header

end Token

end Keyring
