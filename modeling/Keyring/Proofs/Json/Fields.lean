import Keyring.Proofs.Except
import Keyring.Proofs.Json.Nesting
import Mathlib.Logic.Function.Basic

namespace Keyring.Json

section Taking

variable {σ ε : Type}

/-- Behind a member's name `take` reads what `place` does with the member by its contents. -/
def Takes (take : String → σ → Bytes → Except ε (σ × Bytes))
    (place : σ → String × Tree → Option σ) : Prop :=
  ∀ (s : σ) (name : String) {t : Tree} {u v b rest : Bytes}, Spaces v → Spaces u →
    Spells (.value t) b → EndsNumber rest →
    (take name s (v ++ colon :: (u ++ (b ++ rest)))).toOption = (place s (name, t)).map (·, rest)

variable {take : String → σ → Bytes → Except ε (σ × Bytes)}
variable {place : σ → String × Tree → Option σ} {fault : Fault → ε}
variable {name : String} {t : Tree} {ms : List (String × Tree)} {b : Bytes}

/-- A member has the same effect as its contents, or is refused as they are. -/
theorem Takes.exists_member (htake : Takes take place) (h : Spells (.member name t) b) {c : UInt8}
    (hc : c = comma ∨ c = closeList ∨ c = closeObject) (rest : Bytes) :
    ∃ body mid after, skipSpace (b ++ c :: rest) = quoteMark :: body ∧
      readText body = .ok (name, mid) ∧ skipSpace after = c :: rest ∧
      ∀ s : σ, (place s (name, t) = none ∧ ∃ e, take name s mid = .error e) ∨
        ∃ s', place s (name, t) = some s' ∧ take name s mid = .ok (s', after) := by
  have hspace : isSpace c = false := by rcases hc with rfl | rfl | rfl <;> decide
  cases h with
  | @member name t u n v b hu hn hv h =>
      cases h with
      | @item t u' b w hu' h hw =>
          obtain ⟨body, hbody, hread⟩ :=
            hn.exists_readText (v ++ colon :: (u' ++ (b ++ (w ++ c :: rest))))
          refine ⟨body, _, w ++ c :: rest, ?_, hread, skipSpace_spaces_cons hw hspace rest,
            fun s => ?_⟩
          · simp only [List.append_assoc, List.cons_append, hbody]
            exact skipSpace_spaces_cons hu (by decide) body
          · have hends := endsNumber_spaces hw (endsNumber_cons hc rest)
            have htaken := htake s name hv hu' h hends
            cases hmember : take name s (v ++ colon :: (u' ++ (b ++ (w ++ c :: rest)))) with
            | error e =>
                rw [hmember] at htaken
                exact Or.inl ⟨Option.map_eq_none_iff.mp htaken.symm, e, rfl⟩
            | ok found =>
                rw [hmember] at htaken
                obtain ⟨s', hplace, rfl⟩ := Option.map_eq_some_iff.mp htaken.symm
                exact Or.inr ⟨s', hplace, rfl⟩

/-- Members that a text spells have, one by one, the effect of their contents. -/
theorem Takes.members (htake : Takes take place) (h : Spells (.members ms) b) {count : Nat}
    (hcount : ms.length ≤ count) (s : σ) (rest : Bytes) :
    (foldMembers fault take count s (b ++ rest)).toOption =
      (ms.foldlM place s).map (·, rest) := by
  induction ms generalizing b count s with
  | nil => cases h
  | cons m ms ih =>
      obtain ⟨count, rfl⟩ : ∃ n, count = n + 1 := ⟨count - 1, by simp at hcount; omega⟩
      rw [List.foldlM_cons]
      cases h with
      | lastMember h =>
          rw [List.append_assoc, List.singleton_append]
          obtain ⟨body, mid, after, hstart, hname, hclose, htaken⟩ :=
            htake.exists_member h (Or.inr (Or.inr rfl)) rest
          rcases htaken s with ⟨hplace, e, hmember⟩ | ⟨s', hplace, hmember⟩
          · rw [hplace, foldMembers_error hstart hname hmember]
            rfl
          · rw [hplace, foldMembers_close hstart hname hmember hclose]
            rfl
      | @moreMembers name t ms b bs h hs =>
          rw [List.append_assoc, List.cons_append]
          obtain ⟨body, mid, after, hstart, hname, hcomma, htaken⟩ :=
            htake.exists_member h (Or.inl rfl) (bs ++ rest)
          rcases htaken s with ⟨hplace, e, hmember⟩ | ⟨s', hplace, hmember⟩
          · rw [hplace, foldMembers_error hstart hname hmember]
            rfl
          · rw [hplace, foldMembers_next hstart hname hmember hcomma]
            exact ih hs (Nat.le_of_succ_le_succ hcount) s'

/-- The members of an object, read from behind its brace. -/
theorem Takes.object (htake : Takes take place)
    (h : Spells (.value (.object ms)) (openObject :: b)) (s : σ) (rest : Bytes) :
    (foldObject fault take s (b ++ rest)).toOption = (ms.foldlM place s).map (·, rest) := by
  cases h with
  | emptyObject hu =>
      have hclose := skipSpace_spaces_cons hu isSpace_closeObject rest
      rw [List.append_assoc, List.singleton_append, foldObject, hclose]
      rfl
  | object h =>
      have hcount : ms.length ≤ (b ++ rest).length := by
        rw [List.length_append]
        exact Nat.le_add_right_of_le h.length_le
      obtain ⟨after, hname, -⟩ := h.skips [] rest
      obtain ⟨tail, hstart⟩ := skipName_start hname
      rw [foldObject, hstart]
      exact htake.members h hcount s rest

end Taking

/-- The members with a meaning that an object may have, and what the value of each stands for. -/
structure Fields (M : Type) (Content : M → Type) where
  name : M → String
  ofName? : String → Option M
  ofName?_eq_some_iff : ∀ {s : String} {m : M}, ofName? s = some m ↔ name m = s
  mean? : (m : M) → Tree → Option (Content m)

namespace Fields

variable {M : Type} {Content : M → Type} (F : Fields M Content)

/-- What the members of one name hold, if there may be one of them at most. -/
def content? (absent? : (m : M) → Option (Content m)) (m : M) : List Tree → Option (Content m)
  | [] => absent? m
  | [t] => F.mean? m t
  | _ => none

section Listed

variable {α : Type} {ms : List M} {m k : M}

theorem name_inj : F.name k = F.name m ↔ k = m := by
  refine ⟨fun h => ?_, fun h => h ▸ rfl⟩
  have hk := F.ofName?_eq_some_iff.mpr h
  exact Option.some.inj (hk.symm.trans (F.ofName?_eq_some_iff.mpr rfl))

/-- Members with a meaning in a list of such, those without a value left out. -/
def listed (ms : List M) (f : M → Option α) : List (String × α) :=
  ms.filterMap fun m => (f m).map (F.name m, ·)

theorem named_listed_cons (f : M → Option α) :
    named (F.name m) (F.listed (k :: ms) f) =
      (if F.name k = F.name m then (f k).toList else []) ++
        named (F.name m) (F.listed ms f) := by
  rw [listed, List.filterMap_cons]
  cases f k with
  | none => simp [listed]
  | some a =>
      by_cases h : F.name k = F.name m
      · rw [if_pos h]
        exact named_of_eq h
      · rw [if_neg h]
        exact named_of_ne h

theorem named_listed_of_not_mem (f : M → Option α) (hm : m ∉ ms) :
    named (F.name m) (F.listed ms f) = [] := by
  induction ms with
  | nil => rfl
  | cons k ms ih =>
      obtain ⟨hne, hrest⟩ := not_or.mp (mt List.mem_cons.mpr hm)
      rw [F.named_listed_cons, if_neg (mt F.name_inj.mp (Ne.symm hne)), ih hrest]
      rfl

theorem named_listed (f : M → Option α) (hms : ms.Nodup) (hm : m ∈ ms) :
    named (F.name m) (F.listed ms f) = (f m).toList := by
  induction ms with
  | nil => cases hm
  | cons k ms ih =>
      obtain ⟨hk, hms⟩ := List.nodup_cons.mp hms
      rw [F.named_listed_cons]
      rcases List.mem_cons.mp hm with rfl | hmem
      · rw [if_pos rfl, F.named_listed_of_not_mem f hk, List.append_nil]
      · have hne : k ≠ m := fun h => hk (h ▸ hmem)
        rw [if_neg (mt F.name_inj.mp hne), ih hms hmem, List.nil_append]

end Listed

variable [DecidableEq M]

/-- What a member does to what has been found so far. It is refused if it stands a second time or
stands for nothing; under a name without a meaning it does nothing. -/
def place (d : (m : M) → Option (Content m)) (member : String × Tree) :
    Option ((m : M) → Option (Content m)) :=
  match F.ofName? member.1 with
  | some m =>
      if (d m).isSome then none
      else (F.mean? m member.2).map fun c => Function.update d m (some c)
  | none => some d

def fill (d : (m : M) → Option (Content m)) (members : List (String × Tree)) :
    Option ((m : M) → Option (Content m)) :=
  members.foldlM F.place d

/-- Reads on behind a member's name: a value where it has a meaning, which it may have once. -/
def take? (read : (m : M) → Bytes → Option (Content m × Bytes)) (name : String)
    (d : (m : M) → Option (Content m)) (text : Bytes) :
    Option (((m : M) → Option (Content m)) × Bytes) :=
  match F.ofName? name with
  | some m =>
      if (d m).isSome then none
      else (expectColon text).toOption.bind fun rest =>
        (read m rest).map fun (c, rest) => (Function.update d m (some c), rest)
  | none => (skipMember text).toOption.map (d, ·)

section Reading

variable {ε : Type}
variable {take : String → ((m : M) → Option (Content m)) → Bytes →
  Except ε (((m : M) → Option (Content m)) × Bytes)}
variable {read : (m : M) → Bytes → Option (Content m × Bytes)}

theorem takes (htake : ∀ name d text, (take name d text).toOption = F.take? read name d text)
    (hread : ∀ m t {u b rest : Bytes}, Spaces u → Spells (.value t) b → EndsNumber rest →
      read m (u ++ (b ++ rest)) = (F.mean? m t).map (·, rest)) : Takes take F.place := by
  intro d name t u v b rest hv hu h hrest
  rw [htake, take?, place]
  cases F.ofName? name with
  | none => simp only [skipMember_value hv hu h hrest]; rfl
  | some m =>
      have hcolon : expectColon (v ++ colon :: (u ++ (b ++ rest))) = .ok (u ++ (b ++ rest)) := by
        simp only [expectColon, skipSpace_spaces_cons hv isSpace_colon, if_pos]
      cases hd : d m with
      | some old => simp [hd]
      | none =>
          simp only [hd, hcolon, Except.toOption, Option.bind_some, hread m t hu h hrest]
          cases F.mean? m t <;> rfl

end Reading

section Place

variable {d : (m : M) → Option (Content m)} {m : M} {member : String × Tree}

theorem place_other (hname : F.ofName? member.1 = none) : F.place d member = some d := by
  simp only [place, hname]

theorem place_new (hname : F.ofName? member.1 = some m) (hd : d m = none) {c : Content m}
    (hc : F.mean? m member.2 = some c) :
    F.place d member = some (Function.update d m (some c)) := by
  simp [place, hname, hd, hc]

theorem place_refused (hname : F.ofName? member.1 = some m)
    (h : ¬ (d m = none ∧ ∃ c, F.mean? m member.2 = some c)) : F.place d member = none := by
  simp only [place, hname]
  split
  · rfl
  · rename_i hd
    refine Option.map_eq_none_iff.mpr (Option.eq_none_iff_forall_ne_some.mpr fun c hc => ?_)
    exact h ⟨Option.not_isSome_iff_eq_none.mp hd, c, hc⟩

end Place

theorem toList_map_some_inj {α : Type} {a b : Option α} :
    a.toList.map some = b.toList.map some ↔ a = b := by
  cases a <;> cases b <;> simp

theorem toList_map_some_append_cons {α : Type} {a b x : Option α} {xs : List (Option α)}
    (h : a.toList.map some ++ x :: xs = b.toList.map some) : a = none ∧ ∃ c, x = some c := by
  cases a with
  | some old => cases b <;> simp at h
  | none =>
      cases b with
      | none => simp at h
      | some c => exact ⟨rfl, c, (List.cons.inj h).1⟩

/-- Members are taken exactly if each name with a meaning stands once at most, and its value for
something. -/
theorem fill_eq_some_iff {ms : List (String × Tree)} (d d' : (m : M) → Option (Content m)) :
    F.fill d ms = some d' ↔ ∀ m, (d m).toList.map some ++ (named (F.name m) ms).map (F.mean? m) =
      (d' m).toList.map some := by
  induction ms generalizing d with
  | nil =>
      simp only [fill, List.foldlM_nil, pure, Option.some.injEq, named, List.filter_nil,
        List.map_nil, List.append_nil, toList_map_some_inj, funext_iff]
  | cons member ms ih =>
      rw [fill, List.foldlM_cons]
      cases hname : F.ofName? member.1 with
      | none =>
          have hother : ∀ m, named (F.name m) (member :: ms) = named (F.name m) ms := by
            intro m
            refine named_of_ne fun heq => ?_
            rw [F.ofName?_eq_some_iff.mpr heq.symm] at hname
            cases hname
          simp only [F.place_other hname, hother]
          exact ih d
      | some k =>
          have hk : F.name k = member.1 := F.ofName?_eq_some_iff.mp hname
          have hother : ∀ m, m ≠ k → named (F.name m) (member :: ms) = named (F.name m) ms := by
            intro m hm
            refine named_of_ne fun heq => hm ?_
            exact Option.some.inj ((F.ofName?_eq_some_iff.mpr heq.symm).symm.trans hname)
          have hsame : named (F.name k) (member :: ms) = member.2 :: named (F.name k) ms :=
            named_of_eq hk.symm
          by_cases hfree : d k = none ∧ ∃ c, F.mean? k member.2 = some c
          · obtain ⟨hd, c, hc⟩ := hfree
            rw [F.place_new hname hd hc]
            refine (ih (Function.update d k (some c))).trans (forall_congr' fun m => ?_)
            by_cases hm : m = k
            · subst hm
              simp [hd, hsame, hc]
            · rw [Function.update_of_ne hm, hother m hm]
          · rw [F.place_refused hname hfree]
            refine iff_of_false (fun h => by cases h) fun h => hfree ?_
            have hk := h k
            rw [hsame, List.map_cons] at hk
            exact toList_map_some_append_cons hk

/-- What is found in the members, with what stands for the names that are not there. -/
theorem exists_fill_iff (ms : List (String × Tree)) (absent? : (m : M) → Option (Content m))
    (f : (m : M) → Content m) :
    (∃ d, F.fill (fun _ => none) ms = some d ∧ ∀ m, (d m).or (absent? m) = some (f m)) ↔
      ∀ m, F.content? absent? m (named (F.name m) ms) = some (f m) := by
  have hfill : ∀ d, F.fill (fun _ => none) ms = some d ↔
      ∀ m, (named (F.name m) ms).map (F.mean? m) = (d m).toList.map some :=
    F.fill_eq_some_iff fun _ => none
  have hone : ∀ m (ts : List Tree), (∃ c : Option (Content m),
      ts.map (F.mean? m) = c.toList.map some ∧ c.or (absent? m) = some (f m)) ↔
        F.content? absent? m ts = some (f m) := by
    intro m ts
    rcases ts with _ | ⟨t, _ | ⟨other, more⟩⟩
    · constructor
      · rintro ⟨_ | c, hc, hor⟩
        · exact hor
        · cases hc
      · exact fun h => ⟨none, rfl, h⟩
    · constructor
      · rintro ⟨_ | c, hc, hor⟩
        · cases hc
        · exact (List.cons.inj hc).1.trans hor
      · exact fun h => ⟨some (f m), congrArg (fun x => [x]) h, rfl⟩
    · refine iff_of_false ?_ (fun h => by cases h)
      rintro ⟨_ | c, hc, -⟩ <;> simp at hc
  simp only [hfill, ← forall_and, ← hone]
  constructor
  · rintro ⟨d, hd⟩ m
    exact ⟨d m, hd m⟩
  · intro h
    exact ⟨fun m => (h m).choose, fun m => (h m).choose_spec⟩

end Fields

end Keyring.Json
