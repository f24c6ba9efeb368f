import Keyring.Json.Reader
import Keyring.Proofs.Json.Members
import Keyring.Proofs.Json.Number

namespace Keyring.Json

/-- A value with whole numbers of 64 bits only, its members sorted, so many levels deep at most. -/
inductive Value.Plain : Nat → Value → Prop
  | null {depth : Nat} : Plain depth .null
  | bool {depth : Nat} (b : Bool) : Plain depth (.bool b)
  | number {depth : Nat} {i : Int} (h : IsWord i) : Plain depth (.number (.whole i))
  | text {depth : Nat} (s : String) : Plain depth (.text s)
  | list {depth : Nat} {items : List Value} (h : ∀ item ∈ items, Plain depth item) :
      Plain (depth + 1) (.list items)
  | object {depth : Nat} {members : List (String × Value)}
      (hsorted : members.Pairwise fun a b => a.1 < b.1) (h : ∀ m ∈ members, Plain depth m.2) :
      Plain (depth + 1) (.object members)

theorem insertMember_of_lt {name : String} {sorted : List (String × Value)}
    (h : ∀ m ∈ sorted, m.1 < name) (v : Value) :
    insertMember name v sorted = sorted ++ [(name, v)] := by
  induction sorted with
  | nil => rfl
  | cons m sorted ih =>
      obtain ⟨other, old⟩ := m
      have hlt : other < name := h (other, old) List.mem_cons_self
      have hne : name ≠ other := by
        rintro rfl
        exact String.lt_irrefl _ hlt
      rw [insertMember, if_neg (String.lt_asymm hlt), if_neg hne,
        ih fun m hm => h m (List.mem_cons_of_mem _ hm), List.cons_append]

theorem sortMembers_of_pairwise {members : List (String × Value)}
    (h : members.Pairwise fun a b => a.1 < b.1) : sortMembers members = members := by
  have hfold : ∀ sorted : List (String × Value),
      (sorted ++ members).Pairwise (fun a b => a.1 < b.1) →
      members.foldl (fun sorted m => insertMember m.1 m.2 sorted) sorted = sorted ++ members := by
    clear h
    induction members with
    | nil =>
        intro sorted _
        simp
    | cons m members ih =>
        intro sorted h
        have hbefore : ∀ other ∈ sorted, other.1 < m.1 := fun other hother =>
          (List.pairwise_append.mp h).2.2 other hother m List.mem_cons_self
        rw [List.append_cons] at h ⊢
        rw [List.foldl_cons, insertMember_of_lt hbefore]
        exact ih _ h
  exact hfold [] h

section

variable {α : Type}

/-- Items with commas between them and the octet `close` at the end. -/
def writeSeries (write : α → Bytes) (close : UInt8) : List α → Bytes
  | [] => [close]
  | [a] => write a ++ [close]
  | a :: more => write a ++ comma :: writeSeries write close more

/-- What is written of an item is read back, and it does not begin like a space or the end. -/
structure ReadsBack (read : Bytes → Except Fault (α × Bytes)) (write : α → Bytes) (close : UInt8)
    (a : α) : Prop where
  starts : ∃ b rest, write a = b :: rest ∧ isSpace b = false ∧ b ≠ close
  reads : ∀ rest, EndsNumber rest → read (write a ++ rest) = .ok (a, rest)

variable {read : Bytes → Except Fault (α × Bytes)} {write : α → Bytes} {close : UInt8}

theorem length_le_writeSeries {as : List α} (h : ∀ a ∈ as, ReadsBack read write close a) :
    as.length ≤ (writeSeries write close as).length := by
  induction as with
  | nil => exact Nat.zero_le _
  | cons a as ih =>
      have hrest := ih fun a ha => h a (List.mem_cons_of_mem _ ha)
      cases as with
      | nil =>
          simp only [writeSeries, List.length_append, List.length_cons, List.length_nil]
          omega
      | cons next as =>
          simp only [writeSeries, List.length_append, List.length_cons] at hrest ⊢
          omega

theorem readSeries_writeSeries (hclose : close = closeList ∨ close = closeObject) {as : List α}
    (hne : as ≠ []) (h : ∀ a ∈ as, ReadsBack read write close a) {count : Nat}
    (hcount : as.length ≤ count) (rest : Bytes) :
    readSeries close read count (writeSeries write close as ++ rest) = .ok (as, rest) := by
  induction as generalizing count with
  | nil => exact absurd rfl hne
  | cons a as ih =>
      obtain ⟨count, rfl⟩ : ∃ n, count = n + 1 := ⟨count - 1, by simp at hcount; omega⟩
      have ha := h a List.mem_cons_self
      have hspace : isSpace close = false := by rcases hclose with rfl | rfl <;> decide
      have hcomma : comma ≠ close := by rcases hclose with rfl | rfl <;> decide
      cases as with
      | nil =>
          have hread := ha.reads (close :: rest) (endsNumber_cons (Or.inr hclose) rest)
          simp only [writeSeries, List.append_assoc, List.singleton_append, readSeries, hread,
            skipSpace_cons hspace, if_pos]
      | cons next as =>
          have hread := ha.reads (comma :: (writeSeries write close (next :: as) ++ rest))
            (endsNumber_comma _)
          have hmore := ih (List.cons_ne_nil _ _) (fun b hb => h b (List.mem_cons_of_mem a hb))
            (Nat.le_of_succ_le_succ hcount)
          simp only [writeSeries, List.append_assoc, List.cons_append, readSeries, hread,
            skipSpace_cons isSpace_comma, if_neg hcomma, if_pos, hmore]

theorem readSeriesOrNone_writeSeries (hclose : close = closeList ∨ close = closeObject)
    {as : List α} (h : ∀ a ∈ as, ReadsBack read write close a) (rest : Bytes) :
    readSeriesOrNone close read (writeSeries write close as ++ rest) = .ok (as, rest) := by
  have hspace : isSpace close = false := by rcases hclose with rfl | rfl <;> decide
  cases as with
  | nil =>
      simp only [writeSeries, List.singleton_append, readSeriesOrNone, skipSpace_cons hspace,
        if_pos]
  | cons a as =>
      obtain ⟨b, tail, hwrite, hb, hne⟩ := (h a List.mem_cons_self).starts
      obtain ⟨text, htext⟩ : ∃ text, writeSeries write close (a :: as) = b :: text := by
        cases as with
        | nil => exact ⟨_, by rw [writeSeries, hwrite]; rfl⟩
        | cons next as => exact ⟨_, by rw [writeSeries, hwrite]; rfl; exact List.cons_ne_nil _ _⟩
      have hcount : (a :: as).length ≤ (writeSeries write close (a :: as) ++ rest).length := by
        rw [List.length_append]
        exact Nat.le_add_right_of_le (length_le_writeSeries h)
      have hread := readSeries_writeSeries hclose (List.cons_ne_nil a as) h hcount rest
      rw [htext, List.cons_append] at hread ⊢
      rw [readSeriesOrNone, skipSpace_cons hb]
      simp only [if_neg hne]
      exact hread

end

theorem readValue_scalar (depth : Nat) {b : UInt8} (hspace : isSpace b = false)
    (hlist : b ≠ openList) (hobject : b ≠ openObject) (rest : Bytes) :
    readValue depth (b :: rest) = readScalar (b :: rest) := by
  unfold readValue
  rw [skipSpace_cons hspace]
  simp only [if_neg hlist, if_neg hobject]

theorem readValue_list (depth : Nat) (rest : Bytes) :
    readValue (depth + 1) (openList :: rest) =
      (readSeriesOrNone closeList (readValue depth) rest).map
        fun (items, rest) => (.list items, rest) := by
  rw [readValue, skipSpace_cons (by decide)]
  exact if_pos rfl

theorem readValue_object (depth : Nat) (rest : Bytes) :
    readValue (depth + 1) (openObject :: rest) =
      (readSeriesOrNone closeObject (readMember (readValue depth)) rest).map
        fun (members, rest) => (.object (sortMembers members), rest) := by
  rw [readValue, skipSpace_cons (by decide)]
  simp only [if_neg (show openObject ≠ openList by decide), if_pos]

theorem writeItems_eq (items : List Value) :
    Value.writeItems items = writeSeries Value.write closeList items := by
  induction items with
  | nil => rfl
  | cons item items ih =>
      cases items with
      | nil => rfl
      | cons next items =>
          rw [Value.writeItems, writeSeries, ih]
          · exact List.cons_ne_nil _ _
          · exact List.cons_ne_nil _ _

def writeMember (m : String × Value) : Bytes := quote m.1 ++ colon :: m.2.write

theorem writeMembers_eq (members : List (String × Value)) :
    Value.writeMembers members = writeSeries writeMember closeObject members := by
  induction members with
  | nil => rfl
  | cons m members ih =>
      obtain ⟨name, v⟩ := m
      cases members with
      | nil => simp [Value.writeMembers, writeSeries, writeMember]
      | cons next members => simp [Value.writeMembers, writeSeries, writeMember, ih]

theorem readsBack_member {depth : Nat} {m : String × Value}
    (h : ReadsBack (readValue depth) Value.write closeList m.2) :
    ReadsBack (readMember (readValue depth)) writeMember closeObject m where
  starts := by
    obtain ⟨body, hquote, -⟩ := exists_readText_quote m.1 (colon :: m.2.write)
    exact ⟨quoteMark, body, hquote, by decide, by decide⟩
  reads rest hrest := by
    have hvalue := h.reads rest hrest
    obtain ⟨body, hquote, hname⟩ := exists_readText_quote m.1 (colon :: (m.2.write ++ rest))
    rw [writeMember, List.append_assoc, List.cons_append, hquote, readMember,
      skipSpace_cons (by decide)]
    simp only [if_pos, hname, expectColon_colon, hvalue, bind, Except.bind, pure, Except.pure]

theorem readsBack_scalar (depth : Nat) {v : Value} {b : UInt8} {body : Bytes}
    (hwrite : v.write = b :: body)
    (hb : isSpace b = false ∧ b ≠ closeList ∧ b ≠ openList ∧ b ≠ openObject)
    (hread : ∀ rest, EndsNumber rest → readScalar (b :: (body ++ rest)) = .ok (v, rest)) :
    ReadsBack (readValue depth) Value.write closeList v where
  starts := ⟨b, body, hwrite, hb.1, hb.2.1⟩
  reads rest hrest := by
    rw [hwrite, List.cons_append, readValue_scalar depth hb.1 hb.2.2.1 hb.2.2.2]
    exact hread rest hrest

theorem digit_starts {n : Nat} (h : n < 10) :
    (isSpace (digit n) = false ∧ digit n ≠ closeList ∧ digit n ≠ openList ∧
      digit n ≠ openObject) ∧ digit n ≠ quoteMark ∧ digit n ≠ minusSign := by
  have hall : ∀ i : Fin 10, (isSpace (digit i) = false ∧ digit i ≠ closeList ∧
      digit i ≠ openList ∧ digit i ≠ openObject) ∧ digit i ≠ quoteMark ∧
        digit i ≠ minusSign := by
    decide
  exact hall ⟨n, h⟩

theorem readsBack_number (depth : Nat) {i : Int} (h : IsWord i) :
    ReadsBack (readValue depth) Value.write closeList (.number (.whole i)) := by
  cases i with
  | ofNat n =>
      have hle : n ≤ largestSignificand := Nat.le_pred_of_lt (Int.ofNat_lt.mp h.2)
      obtain ⟨first, digits, hfirst, hdigits, -, -⟩ := exists_readWhole_repr false n hle
      have hwrite : Value.write (.number (.whole (Int.ofNat n))) = digit first :: digits := hdigits
      obtain ⟨hstarts, hquote, hminus⟩ := digit_starts hfirst
      refine readsBack_scalar depth hwrite hstarts fun rest hrest => ?_
      have hread := readNumber_repr false hle hrest
      rw [hdigits, List.cons_append] at hread
      simp only [readScalar, if_neg hquote, if_neg hminus, if_pos (isDigit_digit hfirst), hread]
      rfl
  | negSucc n =>
      have hpow : n + 1 ≤ Nat.pow 2 63 := by
        have := h.1
        omega
      have hle : n + 1 ≤ largestSignificand := Nat.le_trans hpow (by decide)
      refine readsBack_scalar depth (wholeBytes_negSucc n) (by decide) fun rest hrest => ?_
      simp only [readScalar, if_neg (show minusSign ≠ quoteMark by decide), if_pos,
        readNumber_repr true hle hrest, ofWhole_true_succ hpow]
      rfl

theorem readsBack_text (depth : Nat) (s : String) :
    ReadsBack (readValue depth) Value.write closeList (.text s) := by
  refine readsBack_scalar depth (by rw [Value.write]; rfl) (by decide) fun rest _ => ?_
  obtain ⟨body, hquote, hread⟩ := exists_readText_quote s rest
  rw [← List.cons_append]
  show readScalar (quote s ++ rest) = _
  rw [hquote, readScalar]
  simp only [if_pos, hread]
  rfl

/-- A plain value is read back from what is written of it. -/
theorem Value.Plain.readsBack {depth : Nat} {v : Value} (h : v.Plain depth) :
    ReadsBack (readValue depth) Value.write closeList v := by
  induction h with
  | null => exact readsBack_scalar _ (by rw [Value.write]) (by decide) fun rest _ => rfl
  | bool b =>
      cases b with
      | true => exact readsBack_scalar _ (by rw [Value.write]) (by decide) fun rest _ => rfl
      | false => exact readsBack_scalar _ (by rw [Value.write]) (by decide) fun rest _ => rfl
  | number hword => exact readsBack_number _ hword
  | text s => exact readsBack_text _ s
  | @list depth items hitems ih =>
      refine ⟨⟨openList, Value.writeItems items, by rw [Value.write], by decide, by decide⟩, ?_⟩
      intro rest _
      rw [Value.write, writeItems_eq, List.cons_append, readValue_list,
        readSeriesOrNone_writeSeries (Or.inl rfl) ih]
      rfl
  | @object depth members hsorted hmembers ih =>
      refine ⟨⟨openObject, Value.writeMembers members, by rw [Value.write], by decide, by decide⟩,
        ?_⟩
      intro rest _
      rw [Value.write, writeMembers_eq, List.cons_append, readValue_object,
        readSeriesOrNone_writeSeries (Or.inr rfl) fun m hm => readsBack_member (ih m hm)]
      simp only [Except.map, sortMembers_of_pairwise hsorted]

/-- At the top the members are read back as they were written. -/
theorem Value.Plain.readOutline_write {depth : Nat} {members : List (String × Value)}
    (h : (Value.object members).Plain depth) (rest : Bytes) :
    readOutline depth (Value.write (.object members) ++ rest) = .ok (.object members, rest) := by
  cases h with
  | object hsorted hmembers =>
      have hread := readSeriesOrNone_writeSeries (Or.inr rfl)
        (fun m hm => readsBack_member (hmembers m hm).readsBack) rest
      rw [Value.write, writeMembers_eq, List.cons_append, readOutline, skipSpace_cons (by decide)]
      simp only [if_pos, hread]
      rfl

end Keyring.Json
