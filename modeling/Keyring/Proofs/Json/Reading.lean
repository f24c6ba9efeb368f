import Keyring.Proofs.Json.Nesting
import Keyring.Proofs.Json.Numeral
import Keyring.Proofs.Json.Value

namespace Keyring.Json

variable {α : Type} {ts : List Tree} {ms : List (String × Tree)} {t : Tree} {b rest : Bytes}

/-- A reader takes a value for what `mean` says it stands for, and refuses one that stands for
nothing, whatever spaces stand before it. -/
structure Reads (read : Bytes → Except Fault (α × Bytes)) (mean : Tree → Option α) : Prop where
  spaces : ∀ u text, Spaces u → read (u ++ text) = read text
  value : ∀ t b, Spells (.value t) b → ∀ rest, EndsNumber rest →
    (read (b ++ rest)).toOption = (mean t).map (·, rest)

/-- A reader that goes by the first octet behind the spaces. -/
theorem Reads.of_start {read : Bytes → Except Fault (α × Bytes)} {mean : Tree → Option α}
    {f : UInt8 → Bytes → Except Fault (α × Bytes)}
    (hread : ∀ text, read text = match skipSpace text with
      | [] => .error .endOfText
      | c :: rest => f c rest)
    (h : ∀ {t c body}, Spells (.value t) (c :: body) → Starts t c → ∀ rest, EndsNumber rest →
      (f c (body ++ rest)).toOption = (mean t).map (·, rest)) : Reads read mean where
  spaces u text hu := by rw [hread, skipSpace_spaces hu, hread]
  value t b hb rest hrest := by
    obtain ⟨c, body, rfl, hc⟩ := hb.starts
    rw [List.cons_append, hread, skipSpace_cons hc.space]
    exact h hb hc rest hrest

/-- What a member stands for: its name, with what its value stands for. -/
def memberMeaning (mean : Tree → Option α) (m : String × Tree) : Option (String × α) :=
  (mean m.2).map (m.1, ·)

section Series

variable {part : Bytes → Except Fault (α × Bytes)} {close : UInt8} {found : Option α}
variable {foundMore : Option (List α)} {v more : Bytes} {count : Nat}

theorem readSeries_last (hclose : close = closeList ∨ close = closeObject) (hv : Spaces v)
    (hb : (part (b ++ close :: rest)).toOption = found.map (·, v ++ close :: rest)) :
    (readSeries close part (count + 1) (b ++ close :: rest)).toOption =
      found.map fun a => ([a], rest) := by
  have hspace : isSpace close = false := by rcases hclose with rfl | rfl <;> decide
  cases found with
  | none =>
      cases hpart : part (b ++ close :: rest) with
      | error fault =>
          simp only [readSeries, hpart]
          rfl
      | ok a =>
          rw [hpart] at hb
          cases hb
  | some a =>
      have hpart := Except.toOption_eq_some_iff.mp hb
      simp only [readSeries, hpart, skipSpace_spaces_cons hv hspace, if_pos]
      rfl

theorem readSeries_more (hclose : close = closeList ∨ close = closeObject) (hv : Spaces v)
    (hb : (part (b ++ comma :: more)).toOption = found.map (·, v ++ comma :: more))
    (hmore : (readSeries close part count more).toOption = foundMore.map (·, rest)) :
    (readSeries close part (count + 1) (b ++ comma :: more)).toOption =
      (found.bind fun a => foundMore.map (a :: ·)).map (·, rest) := by
  have hne : comma ≠ close := by rcases hclose with rfl | rfl <;> decide
  cases found with
  | none =>
      cases hpart : part (b ++ comma :: more) with
      | error fault =>
          simp only [readSeries, hpart]
          rfl
      | ok a =>
          rw [hpart] at hb
          cases hb
  | some a =>
      have hpart := Except.toOption_eq_some_iff.mp hb
      have hcomma := skipSpace_spaces_cons hv isSpace_comma more
      simp only [readSeries, hpart, hcomma, if_neg hne, if_pos]
      cases hrest : readSeries close part count more with
      | error fault =>
          rw [hrest] at hmore
          rw [Option.map_eq_none_iff.mp hmore.symm]
          rfl
      | ok pair =>
          rw [hrest] at hmore
          obtain ⟨as, rfl, rfl⟩ := Option.map_eq_some_iff.mp hmore.symm
          rfl

theorem mapM_cons_option {β : Type} (f : β → Option α) (x : β) (xs : List β) :
    (x :: xs).mapM f = (f x).bind fun a => (xs.mapM f).map (a :: ·) := by
  rw [List.mapM_cons]
  cases f x with
  | none => rfl
  | some a => cases xs.mapM f <;> rfl

theorem mapM_singleton_option {β : Type} (f : β → Option α) (x : β) :
    [x].mapM f = (f x).map ([·]) := by
  rw [mapM_cons_option, List.mapM_nil]
  cases f x <;> rfl

theorem mapM_map_some {β γ : Type} {f : β → γ} {g : γ → Option α} {k : β → α}
    (h : ∀ x, g (f x) = some (k x)) (xs : List β) : (xs.map f).mapM g = some (xs.map k) := by
  induction xs with
  | nil => rfl
  | cons x xs ih => rw [List.map_cons, mapM_cons_option, h, ih]; rfl

theorem exists_mapM {β : Type} {f : β → Option α} {xs : List β}
    (h : ∀ x ∈ xs, ∃ a, f x = some a) :
    ∃ as, xs.mapM f = some as := by
  induction xs with
  | nil => exact ⟨[], rfl⟩
  | cons x xs ih =>
      obtain ⟨a, ha⟩ := h x List.mem_cons_self
      obtain ⟨as, has⟩ := ih fun y hy => h y (List.mem_cons_of_mem x hy)
      exact ⟨a :: as, by rw [mapM_cons_option, ha, has]; rfl⟩

/-- Members stand for members of the same names. -/
theorem mapM_named {mean : Tree → Option α} {ms : List (String × Tree)} {found : List (String × α)}
    (h : ms.mapM (memberMeaning mean) = some found) (name : String) :
    (named name ms).mapM mean = some (named name found) := by
  induction ms generalizing found with
  | nil =>
      cases h
      rfl
  | cons m ms ih =>
      rw [mapM_cons_option] at h
      obtain ⟨first, hfirst, h⟩ := Option.bind_eq_some_iff.mp h
      obtain ⟨more, hmore, rfl⟩ := Option.map_eq_some_iff.mp h
      obtain ⟨a, ha, rfl⟩ := Option.map_eq_some_iff.mp hfirst
      by_cases hname : m.1 = name
      · have hfound : named name ((m.1, a) :: more) = a :: named name more := named_of_eq hname
        rw [named_of_eq hname, hfound, mapM_cons_option, ha, ih hmore]
        rfl
      · have hfound : named name ((m.1, a) :: more) = named name more := named_of_ne hname
        rw [named_of_ne hname, hfound, ih hmore]

end Series

namespace Reads

variable {read : Bytes → Except Fault (α × Bytes)} {mean : Tree → Option α} {count : Nat}

/-- The spaces behind an item are left to whatever comes next. -/
theorem item (h : Reads read mean) (hb : Spells (.item t) b) : ∃ v, Spaces v ∧
    ∀ rest, EndsNumber rest → (read (b ++ rest)).toOption = (mean t).map (·, v ++ rest) := by
  cases hb with
  | @item t u b v hu hb hv =>
      refine ⟨v, hv, fun rest hrest => ?_⟩
      rw [List.append_assoc, h.spaces u _ hu, List.append_assoc]
      exact h.value t b hb (v ++ rest) (endsNumber_spaces hv hrest)

/-- An item that ends a text is all of it. -/
theorem whole {β : Type} (h : Reads read mean) (hb : Spells (.item t) b)
    (finish : α → Except Fault β) :
    (do let (a, rest) ← read b; expectEnd rest; finish a : Except Fault β).toOption =
      (mean t).bind fun a => (finish a).toOption := by
  obtain ⟨v, hv, hread⟩ := h.item hb
  have hwhole := hread [] nofun
  have hend : expectEnd v = .ok () := by
    have hskip := skipSpace_spaces hv []
    rw [List.append_nil] at hskip
    rw [expectEnd, hskip]
    rfl
  rw [List.append_nil, List.append_nil] at hwhole
  rw [Except.toOption_bind, hwhole, Option.bind_map]
  refine congrArg _ (funext fun a => ?_)
  simp only [Function.comp_apply, hend]
  rfl

theorem member {name : String} (h : Reads read mean) (hb : Spells (.member name t) b) :
    ∃ v, Spaces v ∧ ∀ rest, EndsNumber rest → (readMember read (b ++ rest)).toOption =
      (memberMeaning mean (name, t)).map (·, v ++ rest) := by
  cases hb with
  | @member name t u n v b hu hn hv hb =>
      obtain ⟨w, hw, hread⟩ := h.item hb
      refine ⟨w, hw, fun rest hrest => ?_⟩
      obtain ⟨body, hbody, hname⟩ := hn.exists_readText (v ++ colon :: (b ++ rest))
      have hcolon := skipSpace_spaces_cons hv isSpace_colon (b ++ rest)
      have hvalue := hread rest hrest
      simp only [List.append_assoc, List.cons_append, hbody]
      rw [readMember, skipSpace_spaces_cons hu (by decide)]
      simp only [if_pos, hname, expectColon, hcolon, bind, Except.bind, pure, Except.pure]
      cases hfound : read (b ++ rest) with
      | error fault =>
          rw [hfound] at hvalue
          rw [memberMeaning, Option.map_eq_none_iff.mp hvalue.symm]
          rfl
      | ok found =>
          rw [hfound] at hvalue
          obtain ⟨a, ha, rfl⟩ := Option.map_eq_some_iff.mp hvalue.symm
          rw [memberMeaning, ha]
          rfl

theorem items (h : Reads read mean) (hb : Spells (.items ts) b) (hcount : ts.length ≤ count)
    (rest : Bytes) :
    (readSeries closeList read count (b ++ rest)).toOption = (ts.mapM mean).map (·, rest) := by
  induction ts generalizing b count with
  | nil => cases hb
  | cons t ts ih =>
      obtain ⟨count, rfl⟩ : ∃ n, count = n + 1 := ⟨count - 1, by simp at hcount; omega⟩
      cases hb with
      | lastItem ht =>
          obtain ⟨v, hv, hread⟩ := h.item ht
          have hends := endsNumber_closeList rest
          rw [List.append_assoc, List.singleton_append,
            readSeries_last (Or.inl rfl) hv (hread _ hends), mapM_singleton_option, Option.map_map]
          rfl
      | moreItems ht hs =>
          obtain ⟨v, hv, hread⟩ := h.item ht
          have hmore := ih hs (Nat.le_of_succ_le_succ hcount)
          rw [List.append_assoc, List.cons_append, mapM_cons_option,
            readSeries_more (Or.inl rfl) hv (hread _ (endsNumber_comma _)) hmore]

theorem members (h : Reads read mean) (hb : Spells (.members ms) b) (hcount : ms.length ≤ count)
    (rest : Bytes) :
    (readSeries closeObject (readMember read) count (b ++ rest)).toOption =
      (ms.mapM (memberMeaning mean)).map (·, rest) := by
  induction ms generalizing b count with
  | nil => cases hb
  | cons m ms ih =>
      obtain ⟨count, rfl⟩ : ∃ n, count = n + 1 := ⟨count - 1, by simp at hcount; omega⟩
      cases hb with
      | lastMember hm =>
          obtain ⟨v, hv, hread⟩ := h.member hm
          have hends := endsNumber_closeObject rest
          rw [List.append_assoc, List.singleton_append,
            readSeries_last (Or.inr rfl) hv (hread _ hends), mapM_singleton_option, Option.map_map]
          rfl
      | moreMembers hm hs =>
          obtain ⟨v, hv, hread⟩ := h.member hm
          have hmore := ih hs (Nat.le_of_succ_le_succ hcount)
          rw [List.append_assoc, List.cons_append, mapM_cons_option,
            readSeries_more (Or.inr rfl) hv (hread _ (endsNumber_comma _)) hmore]

/-- The items of a list, read from behind its bracket. -/
theorem list (h : Reads read mean) (hb : Spells (.value (.list ts)) (openList :: b))
    (rest : Bytes) :
    (readSeriesOrNone closeList read (b ++ rest)).toOption = (ts.mapM mean).map (·, rest) := by
  cases hb with
  | emptyList hu =>
      have hclose := skipSpace_spaces_cons hu isSpace_closeList rest
      rw [List.append_assoc, List.singleton_append, readSeriesOrNone, hclose]
      rfl
  | list hb =>
      obtain ⟨c, after, hstart, hne⟩ := hb.start_items rest
      have hcount : ts.length ≤ (b ++ rest).length := by
        rw [List.length_append]
        exact Nat.le_add_right_of_le hb.length_items_le
      rw [readSeriesOrNone, hstart]
      exact (congrArg Except.toOption (if_neg hne)).trans (h.items hb hcount rest)

/-- The members of an object, read from behind its brace. -/
theorem object (h : Reads read mean) (hb : Spells (.value (.object ms)) (openObject :: b))
    (rest : Bytes) :
    (readSeriesOrNone closeObject (readMember read) (b ++ rest)).toOption =
      (ms.mapM (memberMeaning mean)).map (·, rest) := by
  cases hb with
  | emptyObject hu =>
      have hclose := skipSpace_spaces_cons hu isSpace_closeObject rest
      rw [List.append_assoc, List.singleton_append, readSeriesOrNone, hclose]
      rfl
  | object hb =>
      obtain ⟨after, hname, -⟩ := hb.skips [] rest
      obtain ⟨tail, hstart⟩ := skipName_start hname
      have hcount : ms.length ≤ (b ++ rest).length := by
        rw [List.length_append]
        exact Nat.le_add_right_of_le hb.length_le
      rw [readSeriesOrNone, hstart]
      exact (congrArg Except.toOption (if_neg (by decide))).trans (h.members hb hcount rest)

end Reads

namespace Tree

/-- What a value stands for that may be so many levels deep. A number is what its digits are read
as, and one that no double holds stands for nothing. -/
def value? : Nat → Tree → Option Value
  | _, .null => some .null
  | _, .bool b => some (.bool b)
  | _, .numeral digits => (readScalar digits).toOption.map Prod.fst
  | _, .text s => some (.text s)
  | 0, .list _ | 0, .object _ => none
  | depth + 1, .list items => (items.mapM (value? depth)).map .list
  | depth + 1, .object members =>
      (members.mapM (memberMeaning (value? depth))).map fun members =>
        .object (sortMembers members)

/-- The members at the top of an object, with what their values stand for. -/
def members? : Nat → Tree → Option (List (String × Value))
  | depth + 1, .object members => members.mapM (memberMeaning (value? depth))
  | _, _ => none

/-- What a value stands for, at whose top the members stay as they stand. -/
def outline? (depth : Nat) : Tree → Option Outline
  | .object members => (members? depth (.object members)).map .object
  | t => (t.value? depth).map .other

theorem outline?_of_ne_object (depth : Nat) {t : Tree} (h : ¬ ∃ ms, t = .object ms) :
    t.outline? depth = (t.value? depth).map .other := by
  cases t with
  | object ms => exact absurd ⟨ms, rfl⟩ h
  | _ => rfl

end Tree

theorem readScalar_text {s : String} (h : SpellsText s b) (rest : Bytes) :
    readScalar (b ++ rest) = .ok (.text s, rest) := by
  obtain ⟨body, hbody, hread⟩ := h.exists_readText rest
  rw [hbody, readScalar, if_pos rfl, hread]
  rfl

theorem readValue_text (depth : Nat) {s : String} (h : SpellsText s b) (rest : Bytes) :
    readValue depth (b ++ rest) = .ok (.text s, rest) := by
  have hread := readScalar_text h rest
  obtain ⟨body, hbody, -⟩ := h.exists_readText rest
  rw [hbody] at hread ⊢
  rw [readValue_scalar depth (by decide) (by decide) (by decide), hread]

theorem readValue_numeral (depth : Nat) (h : Numeral b) (hrest : EndsNumber rest) :
    (readValue depth (b ++ rest)).toOption =
      (Tree.value? depth (.numeral b)).map (·, rest) := by
  have hread := h.endsAt.toOption hrest
  have hmean : Tree.value? depth (.numeral b) = (readScalar b).toOption.map Prod.fst := by
    cases depth <;> rfl
  obtain ⟨c, body, hb, hspace, -, hlist, hobject, -⟩ := h.start
  rw [hmean, Option.map_map]
  refine Eq.trans ?_ hread
  rw [hb, List.cons_append, readValue_scalar depth hspace hlist hobject]

theorem readValue_list_zero (rest : Bytes) :
    readValue 0 (openList :: rest) = .error .malformed := by
  rw [readValue, skipSpace_cons (by decide)]
  exact if_pos rfl

theorem readValue_object_zero (rest : Bytes) :
    readValue 0 (openObject :: rest) = .error .malformed := by
  rw [readValue, skipSpace_cons (by decide)]
  exact (if_neg (by decide)).trans (if_pos rfl)

/-- However a value is written, it is read as what it stands for. By induction on how deep it may
be: the items of a list and the members of an object may be one level less. -/
theorem reads_value (depth : Nat) : Reads (readValue depth) (Tree.value? depth) := by
  have hspaces : ∀ depth u text, Spaces u →
      readValue depth (u ++ text) = readValue depth text := by
    intro depth u text hu
    rw [readValue, skipSpace_spaces hu, readValue]
  induction depth with
  | zero =>
      refine ⟨hspaces 0, fun t b h rest hrest => ?_⟩
      cases t with
      | null => cases h; rfl
      | bool v => cases h <;> rfl
      | numeral digits =>
          cases h with
          | numeral h => exact readValue_numeral 0 h hrest
      | text s =>
          cases h with
          | text h => rw [readValue_text 0 h]; rfl
      | list ts =>
          obtain ⟨body, rfl⟩ := h.start_list
          rw [List.cons_append, readValue_list_zero]
          rfl
      | object ms =>
          obtain ⟨body, rfl⟩ := h.start_object
          rw [List.cons_append, readValue_object_zero]
          rfl
  | succ depth ih =>
      refine ⟨hspaces (depth + 1), fun t b h rest hrest => ?_⟩
      cases t with
      | null => cases h; rfl
      | bool v => cases h <;> rfl
      | numeral digits =>
          cases h with
          | numeral h => exact readValue_numeral (depth + 1) h hrest
      | text s =>
          cases h with
          | text h => rw [readValue_text (depth + 1) h]; rfl
      | list ts =>
          obtain ⟨body, rfl⟩ := h.start_list
          rw [List.cons_append, readValue_list, Except.toOption_map, ih.list h, Tree.value?,
            Option.map_map, Option.map_map]
          rfl
      | object ms =>
          obtain ⟨body, rfl⟩ := h.start_object
          rw [List.cons_append, readValue_object, Except.toOption_map, ih.object h, Tree.value?,
            Option.map_map, Option.map_map]
          rfl

theorem reads_outline (depth : Nat) : Reads (readOutline depth) (Tree.outline? depth) := by
  refine .of_start (fun _ => rfl) fun {t c body} hb hc rest hrest => ?_
  by_cases hobject : c = openObject
  · obtain ⟨ms, rfl⟩ := hc.object.mp hobject
    subst hobject
    rw [if_pos rfl]
    cases depth with
    | zero => rfl
    | succ depth =>
        rw [Except.toOption_map, (reads_value depth).object hb, Tree.outline?, Tree.members?,
          Option.map_map, Option.map_map]
        rfl
  · rw [if_neg hobject, Except.toOption_map, ← List.cons_append,
      (reads_value depth).value t _ hb rest hrest,
      Tree.outline?_of_ne_object depth (mt hc.object.mpr hobject), Option.map_map, Option.map_map]
    rfl

end Keyring.Json
