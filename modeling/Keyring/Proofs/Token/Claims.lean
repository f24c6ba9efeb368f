import Keyring.Proofs.Json.Reading
import Keyring.Token.Claims

namespace Keyring

open Json

def Json.Value.isNested : Value → Bool
  | .list _ | .object _ => true
  | _ => false

def Json.Value.hasItems : Value → Bool
  | .list items => !items.isEmpty
  | .object members => !members.isEmpty
  | _ => false

namespace Token.Claims

/-- The subject is no list and no object, and a time is none with anything in it. -/
def FitRegistered (members : List (String × Value)) : Prop :=
  ∀ m ∈ members, (m.1 = "sub" → m.2.isNested = false) ∧ (m.1 ∈ times → m.2.hasItems = false)

instance (members : List (String × Value)) : Decidable (FitRegistered members) :=
  inferInstanceAs (Decidable (∀ m ∈ members, _))

theorem isReadable_iff (name : String) (v : Value) :
    isReadable name v = true ↔
      (name = "sub" → v.isNested = false) ∧ (name ∈ times → v.hasItems = false) := by
  cases v with
  | list items => cases items <;> simp [isReadable, Value.isNested, Value.hasItems]
  | object members => cases members <;> simp [isReadable, Value.isNested, Value.hasItems]
  | _ => simp [isReadable, Value.isNested, Value.hasItems]

theorem isReadable_of_not_mem {name : String} (h : name ∉ registered) (v : Value) :
    isReadable name v = true := by
  have htimes : ∀ time ∈ times, time ∈ registered := by decide
  rw [isReadable_iff]
  constructor
  · rintro rfl
    exact absurd (by decide) h
  · intro htime
    exact absurd (htimes name htime) h

/-- No registered claim stands twice. -/
def NamedOnce (members : List (String × Value)) : Prop :=
  ∀ name ∈ registered, (members.filter fun m => m.1 == name).length ≤ 1

instance (members : List (String × Value)) : Decidable (NamedOnce members) :=
  inferInstanceAs (Decidable (∀ name ∈ registered, _))

/-- Among members in their order no name occurs twice. -/
theorem namedOnce_of_pairwise {members : List (String × Value)}
    (h : members.Pairwise fun a b => a.1 < b.1) : NamedOnce members := by
  intro name _
  have hname : ∀ m ∈ members.filter (fun m => m.1 == name), m.1 = name := fun m hm =>
    beq_iff_eq.mp (List.mem_filter.mp hm).2
  have hsorted := h.filter fun m => m.1 == name
  generalize members.filter (fun m => m.1 == name) = found at hname hsorted ⊢
  rcases found with _ | ⟨m, _ | ⟨other, more⟩⟩
  · exact Nat.zero_le 1
  · exact Nat.le_refl 1
  · have hlt : m.1 < other.1 := (List.pairwise_cons.mp hsorted).1 other List.mem_cons_self
    rw [hname m List.mem_cons_self, hname other (List.mem_cons_of_mem m List.mem_cons_self)] at hlt
    exact absurd hlt (String.lt_irrefl name)

theorem areReadable_object_iff {members : List (String × Value)} :
    areReadable (.object members) = true ↔ NamedOnce members ∧ FitRegistered members := by
  have hmem {name : String} {m : String × Value} :
      m ∈ members.filter (fun m => m.1 == name) ↔ m ∈ members ∧ m.1 = name := by
    rw [List.mem_filter, beq_iff_eq]
  rw [areReadable, List.all_eq_true]
  constructor
  · intro hall
    constructor
    · intro name hname
      have hone := hall name hname
      split at hone
      · rename_i hfound
        simp [hfound]
      · rename_i hfound
        simp [hfound]
      · cases hone
    · intro m hm
      rw [← isReadable_iff]
      by_cases hregistered : m.1 ∈ registered
      · have hone := hall m.1 hregistered
        have hfilter := hmem.mpr ⟨hm, rfl⟩
        split at hone
        · rename_i hfound
          rw [hfound] at hfilter
          cases hfilter
        · rename_i hfound
          rw [hfound, List.mem_singleton] at hfilter
          rw [hfilter] at hone ⊢
          exact hone
        · cases hone
      · exact isReadable_of_not_mem hregistered m.2
  · rintro ⟨honce, hfit⟩ name hname
    have hle := honce name hname
    split
    · rfl
    · rename_i found v hfound
      have hin := hmem.mp (hfound ▸ List.mem_singleton_self (found, v))
      rw [← hin.2]
      exact (isReadable_iff found v).mpr (hfit (found, v) hin.1)
    · rename_i hnone hsingle
      generalize members.filter (fun m => m.1 == name) = found at hle hnone hsingle
      rcases found with _ | ⟨m, _ | ⟨other, more⟩⟩
      · exact absurd rfl hnone
      · exact absurd rfl (hsingle m.1 m.2)
      · simp only [List.length_cons] at hle
        omega

theorem areReadable_iff {members : List (String × Value)}
    (h : members.Pairwise fun a b => a.1 < b.1) :
    areReadable (.object members) = true ↔ FitRegistered members :=
  areReadable_object_iff.trans (and_iff_right (namedOnce_of_pairwise h))

/-- The claims that a value stands for. -/
def ofTree? : Tree → Option Claims
  | .object ms =>
      (Tree.members? depthLimit (.object ms)).bind fun members =>
        if NamedOnce members ∧ FitRegistered members then some (.object (sortMembers members))
        else none
  | t => (t.value? depthLimit).bind fun v => if areReadable (.other v) then some v else none

theorem ofTree?_eq (t : Tree) :
    ofTree? t = (t.outline? depthLimit).bind fun outline =>
      if areReadable outline then some outline.value else none := by
  cases t with
  | object ms =>
      rw [ofTree?, Tree.outline?, Option.bind_map]
      simp only [Function.comp_def, areReadable_object_iff]
      rfl
  | _ =>
      rw [Tree.outline?_of_ne_object _ (by simp), Option.bind_map]
      rfl

/-- A value, however it is written, is read as the claims that it stands for. -/
theorem toOption_read {text : Bytes} {t : Tree} (h : Spells (.item t) text) :
    (read text).toOption = ofTree? t := by
  have hread := (reads_outline depthLimit).whole h fun outline =>
    if areReadable outline then .ok outline.value else .error .malformed
  refine hread.trans ?_
  rw [ofTree?_eq]
  refine congrArg _ (funext fun outline => ?_)
  split <;> rfl

/-- Claims that are written are read back, unless a registered one is not what it may be. -/
theorem read_write {members : List (String × Value)}
    (h : (Value.object members).Plain depthLimit) :
    read (write (.object members)) =
      if FitRegistered members then .ok (.object members) else .error .malformed := by
  have hread := h.readOutline_write []
  rw [List.append_nil] at hread
  have hsorted : members.Pairwise fun a b => a.1 < b.1 := by
    cases h
    assumption
  have hvalue : Outline.value (.object members) = .object members := by
    rw [Outline.value, sortMembers_of_pairwise hsorted]
  simp only [read, write, hread, bind, Except.bind, areReadable_iff hsorted, hvalue]
  rfl

end Token.Claims

end Keyring
