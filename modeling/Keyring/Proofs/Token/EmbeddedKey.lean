import Keyring.Proofs.Json.Fields
import Keyring.Proofs.Json.Reading
import Keyring.Proofs.Json.Tree
import Keyring.Token.EmbeddedKey

namespace Keyring.Token

open Json

namespace Material

/-- The names under which what a key consists of stands. -/
def names : List String := ["kty", "crv", "x", "y", "n", "e", "k"]

theorem named_members_of_not_mem {name : String} (h : name ∉ names) (m : Material) :
    named name m.members = [] := by
  simp only [names, List.mem_cons, List.not_mem_nil, or_false, not_or] at h
  cases m <;> simp [members, named, Ne.symm, h]

theorem exists_text {m : Material} {member : String × Tree} (h : member ∈ m.members) :
    ∃ s, member.2 = .text s := by
  cases m with
  | ec curve x y =>
      simp only [members, List.mem_cons, List.not_mem_nil, or_false] at h
      rcases h with rfl | rfl | rfl | rfl <;> exact ⟨_, rfl⟩
  | rsa n e =>
      simp only [members, List.mem_cons, List.not_mem_nil, or_false] at h
      rcases h with rfl | rfl | rfl <;> exact ⟨_, rfl⟩
  | oct k =>
      simp only [members, List.mem_cons, List.not_mem_nil, or_false] at h
      rcases h with rfl | rfl <;> exact ⟨_, rfl⟩
  | okp curve x =>
      simp only [members, List.mem_cons, List.not_mem_nil, or_false] at h
      rcases h with rfl | rfl | rfl <;> exact ⟨_, rfl⟩

/-- What a key consists of is found if each of its texts is. -/
theorem ofMembers?_eq_some {m : Material} {found : List (String × Outline)}
    (h : ∀ name s, named name m.members = [.text s] → named name found = [.other (.text s)]) :
    ofMembers? found = some m := by
  cases m with
  | ec curve x y =>
      have hkty := h "kty" KeyType.ec.name (by simp [named, members])
      have hcrv := h "crv" curve.name (by simp [named, members])
      have hx := h "x" x (by simp [named, members])
      have hy := h "y" y (by simp [named, members])
      simp [ofMembers?, hkty, hcrv, hx, hy, EmbeddedKey.one?, EmbeddedKey.choice?,
        EmbeddedKey.text?, Value.text?, KeyType.ofName?_name, Curve.ofName?_name]
  | rsa n e =>
      have hkty := h "kty" KeyType.rsa.name (by simp [named, members])
      have hn := h "n" n (by simp [named, members])
      have he := h "e" e (by simp [named, members])
      simp [ofMembers?, hkty, hn, he, EmbeddedKey.one?, EmbeddedKey.choice?,
        EmbeddedKey.text?, Value.text?, KeyType.ofName?_name]
  | oct k =>
      have hkty := h "kty" KeyType.oct.name (by simp [named, members])
      have hk := h "k" k (by simp [named, members])
      simp [ofMembers?, hkty, hk, EmbeddedKey.one?, EmbeddedKey.choice?,
        EmbeddedKey.text?, Value.text?, KeyType.ofName?_name]
  | okp curve x =>
      have hkty := h "kty" KeyType.okp.name (by simp [named, members])
      have hcrv := h "crv" curve.name (by simp [named, members])
      have hx := h "x" x (by simp [named, members])
      simp [ofMembers?, hkty, hcrv, hx, EmbeddedKey.one?, EmbeddedKey.choice?,
        EmbeddedKey.text?, Value.text?, KeyType.ofName?_name, Curve.ofName?_name]

end Material

namespace EmbeddedKey

/-- The key that a value stands for whose members may be so many levels deep. -/
def ofTree? (depth : Nat) : Tree → Option EmbeddedKey
  | .object ms => (ms.mapM (memberMeaning (Tree.outline? depth))).bind ofMembers?
  | _ => none

theorem ofTree?_of_ne_object (depth : Nat) {t : Tree} (h : ¬ ∃ ms, t = .object ms) :
    ofTree? depth t = none := by
  cases t with
  | object ms => exact absurd ⟨ms, rfl⟩ h
  | _ => rfl

theorem reads (depth : Nat) : Reads (read depth) (ofTree? depth) := by
  refine .of_start (fun _ => rfl) fun {t c body} hb hc rest _ => ?_
  by_cases hobject : c = openObject
  · obtain ⟨ms, rfl⟩ := hc.object.mp hobject
    subst hobject
    rw [if_pos rfl, Except.toOption_bind, (reads_outline depth).object hb, ofTree?]
    cases ms.mapM (memberMeaning (Tree.outline? depth)) with
    | none => rfl
    | some members =>
        simp only [Option.map_some, Option.bind_some]
        cases ofMembers? members <;> rfl
  · rw [if_neg hobject, ofTree?_of_ne_object depth (mt hc.object.mpr hobject)]
    rfl

section Written

variable {depth : Nat}

theorem outline?_text (s : String) :
    Tree.outline? depth (.text s) = some (.other (.text s)) := by
  cases depth <;> rfl

theorem outline?_texts (ss : List String) :
    Tree.outline? (depth + 1) (.texts ss) = some (.other (.list (ss.map .text))) := by
  have hitems : (ss.map Tree.text).mapM (Tree.value? depth) = some (ss.map .text) :=
    mapM_map_some (fun s => by cases depth <;> rfl) ss
  rw [Tree.texts, Tree.outline?_of_ne_object _ (by simp), Tree.value?, hitems]
  rfl

theorem texts?_texts (ss : List String) : texts? (.other (.list (ss.map .text))) = some ss := by
  have hitems : (ss.map Value.text).mapM Value.text? = some (ss.map id) :=
    mapM_map_some (f := Value.text) (k := id) (fun _ => rfl) ss
  rw [texts?, hitems, List.map_id]

/-- Texts and lists of texts are all that stands in a key. -/
theorem mem_members {k : EmbeddedKey} {m : String × Tree} (h : m ∈ k.members) :
    (∃ s, m.2 = .text s) ∨ ∃ ss, m.2 = .texts ss := by
  simp only [members, List.mem_append, List.mem_map] at h
  rcases h with (((((((⟨s, -, rfl⟩ | ⟨ss, -, rfl⟩) | ⟨a, -, rfl⟩) | ⟨s, -, rfl⟩) | ⟨s, -, rfl⟩) |
    ⟨ss, -, rfl⟩) | ⟨s, -, rfl⟩) | ⟨s, -, rfl⟩) | h
  · exact Or.inl ⟨s, rfl⟩
  · exact Or.inr ⟨ss, rfl⟩
  · exact Or.inl ⟨a.name, rfl⟩
  · exact Or.inl ⟨s, rfl⟩
  · exact Or.inl ⟨s, rfl⟩
  · exact Or.inr ⟨ss, rfl⟩
  · exact Or.inl ⟨s, rfl⟩
  · exact Or.inl ⟨s, rfl⟩
  · exact Or.inl (Material.exists_text h)

theorem spells_members (k : EmbeddedKey) :
    Spells (.value (.object k.members)) (Tree.object k.members).write := by
  refine spells_object fun m hm => ?_
  rcases mem_members hm with ⟨s, hs⟩ | ⟨ss, hss⟩
  · rw [hs]
    exact spells_text s
  · rw [hss]
    exact spells_texts ss

end Written

section Found

variable {α : Type} {depth : Nat} {name : String} {a : Option α} {tree : α → Tree}
variable {found : α → Outline}

theorem named_found {ms : List (String × Tree)} {members : List (String × Outline)}
    (h : ms.mapM (memberMeaning (Tree.outline? depth)) = some members)
    (hname : named name ms = a.toList.map tree)
    (htree : ∀ a, (tree a).outline? depth = some (found a)) :
    named name members = a.toList.map found := by
  have hmembers := mapM_named h name
  rw [hname] at hmembers
  cases a with
  | none => exact (Option.some.inj hmembers).symm
  | some a =>
      rw [Option.toList_some, List.map_singleton, mapM_singleton_option, htree] at hmembers
      exact (Option.some.inj hmembers).symm

theorem atMostOne?_toList (read : Outline → Option α) (hread : ∀ a, read (found a) = some a)
    (hnull : read (.other .null) = none) (a : Option α) :
    atMostOne? read (a.toList.map found) = some a := by
  cases a with
  | none => rfl
  | some a =>
      rw [Option.toList_some, List.map_singleton]
      unfold atMostOne?
      split
      · rename_i heq
        cases heq
      · rename_i heq
        have ha := hread a
        rw [(List.cons.inj heq).1, hnull] at ha
        cases ha
      · rename_i heq
        rw [← (List.cons.inj heq).1, hread]
        rfl
      · rename_i hother
        exact absurd rfl (hother (found a))

end Found

section Names

variable {k : EmbeddedKey}

/-- What a key consists of stands under names of its own. -/
theorem named_members_of_material {name s : String}
    (h : named name k.material.members = [.text s]) : named name k.members = [.text s] := by
  have hname : name ∈ Material.names := by
    by_contra hname
    rw [k.material.named_members_of_not_mem hname] at h
    cases h
  simp only [Material.names, List.mem_cons, List.not_mem_nil, or_false] at hname
  rcases hname with rfl | rfl | rfl | rfl | rfl | rfl | rfl <;>
    simpa [members, named_append, named_toList] using h

/-- Beside what it consists of, a key has under each name what is said of it there. -/
theorem named_members (k : EmbeddedKey) :
    named "use" k.members = k.purpose.toList.map .text ∧
      named "key_ops" k.members = k.operations.toList.map .texts ∧
      named "alg" k.members = k.alg.toList.map (fun a => .text a.name) ∧
      named "kid" k.members = k.kid.toList.map .text ∧
      named "x5u" k.members = k.x5u.toList.map .text ∧
      named "x5c" k.members = k.x5c.toList.map .texts ∧
      named "x5t" k.members = k.x5t.toList.map .text ∧
      named "x5t#S256" k.members = k.x5tS256.toList.map .text := by
  have hother : ∀ name ∉ Material.names, named name k.material.members = [] :=
    fun name hname => k.material.named_members_of_not_mem hname
  simp only [Material.names, List.mem_cons, List.not_mem_nil, or_false, not_or] at hother
  refine ⟨?_, ?_, ?_, ?_, ?_, ?_, ?_, ?_⟩ <;> simp [members, named_append, named_toList, hother]

variable {depth : Nat} {found : List (String × Outline)}

theorem ofMembers?_found
    (h : k.members.mapM (memberMeaning (Tree.outline? (depth + 1))) = some found) :
    ofMembers? found = some k := by
  have htext {name : String} {a : Option String}
      (hname : named name k.members = a.toList.map .text) :
      atMostOne? text? (named name found) = some a := by
    rw [named_found h hname outline?_text]
    exact atMostOne?_toList text? (fun _ => rfl) rfl a
  have htexts {name : String} {a : Option (List String)}
      (hname : named name k.members = a.toList.map .texts) :
      atMostOne? texts? (named name found) = some a := by
    rw [named_found h hname outline?_texts]
    exact atMostOne?_toList texts? texts?_texts rfl a
  obtain ⟨hpurpose, hoperations, halg, hkid, hx5u, hx5c, hx5t, hx5tS256⟩ := k.named_members
  have hfoundAlg := named_found h halg fun a => outline?_text a.name
  have hname : ∀ a : KeyAlgorithm, choice? KeyAlgorithm.ofName? isNullOrEmpty
      (.other (.text a.name)) = some a := KeyAlgorithm.ofName?_name
  have hmaterial : Material.ofMembers? found = some k.material := by
    refine Material.ofMembers?_eq_some fun name s hs => ?_
    have hkey : named name k.members = (some s).toList.map .text := named_members_of_material hs
    exact named_found h hkey outline?_text
  simp only [ofMembers?, htext hpurpose, htexts hoperations, hfoundAlg,
    atMostOne?_toList _ hname rfl k.alg, htext hkid, htext hx5u, htexts hx5c, htext hx5t,
    htext hx5tS256, hmaterial, Option.bind_eq_bind, Option.bind_some]
  rfl

/-- A key that is written is the key that is found. -/
theorem ofTree?_members (k : EmbeddedKey) (depth : Nat) :
    ofTree? (depth + 1) (.object k.members) = some k := by
  obtain ⟨found, h⟩ : ∃ found,
      k.members.mapM (memberMeaning (Tree.outline? (depth + 1))) = some found := by
    refine exists_mapM fun m hm => ?_
    rcases mem_members hm with ⟨s, hs⟩ | ⟨ss, hss⟩
    · exact ⟨_, by rw [memberMeaning, hs, outline?_text]; rfl⟩
    · exact ⟨_, by rw [memberMeaning, hss, outline?_texts]; rfl⟩
  rw [ofTree?, h, Option.bind_some, ofMembers?_found h]

end Names

end EmbeddedKey

end Keyring.Token
