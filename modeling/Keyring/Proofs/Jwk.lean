import Keyring.Jwk.Reader
import Keyring.Proofs.Json.Members

namespace Keyring.Jwk

open Json

theorem readString_quote (s : String) (rest : Bytes) :
    readString (quote s ++ rest) = .ok (s, rest) := by
  obtain ⟨body, hquote, hread⟩ := exists_readText_quote s rest
  rw [hquote, readString, skipSpace_cons (by decide)]
  simp only [if_pos, hread, ofJson]

theorem takeMember_new {d : Draft} {m : Member} (h : d m = none) (s : String) (rest : Bytes) :
    takeMember m.name d (colon :: (quote s ++ rest)) = .ok (d.set m s, rest) := by
  simp only [takeMember, Member.ofName?_name, h, expectColon_colon, ofJson, readString_quote,
    Option.isSome_none, Bool.false_eq_true, if_false, bind, Except.bind, pure, Except.pure]

theorem Draft.set_of_ne (d : Draft) {m other : Member} (h : other ≠ m) (s : String) :
    d.set m s other = d other := if_neg h

/-- Members that are written are read back one by one, each into its place. -/
theorem foldMembers_writeMembers (k : Jwk) {ms : List Member} (hms : ms ≠ []) (hnodup : ms.Nodup)
    {d : Draft} (hd : ∀ m ∈ ms, d m = none) {count : Nat} (hcount : ms.length ≤ count)
    (rest : Bytes) :
    foldMembers Fault.json takeMember count d (writeMembers k ms ++ rest) =
      .ok (ms.foldl (fun d m => d.set m (k.get m)) d, rest) := by
  induction ms generalizing d count with
  | nil => exact absurd rfl hms
  | cons m ms ih =>
      obtain ⟨count, rfl⟩ : ∃ n, count = n + 1 := ⟨count - 1, by simp at hcount; omega⟩
      have hm : d m = none := hd m List.mem_cons_self
      cases ms with
      | nil =>
          rw [writeMembers, List.append_assoc, List.cons_append, List.append_assoc]
          exact foldMembers_last (takeMember_new hm _ _) count
      | cons next ms =>
          have hnot : m ∉ next :: ms := (List.nodup_cons.mp hnodup).1
          have hlater : ∀ other ∈ next :: ms, d.set m (k.get m) other = none := by
            intro other hother
            have hne : other ≠ m := by
              rintro rfl
              exact hnot hother
            rw [Draft.set_of_ne d hne]
            exact hd other (List.mem_cons_of_mem m hother)
          rw [writeMembers, List.append_assoc, List.cons_append, List.append_assoc,
            List.cons_append, foldMembers_more (takeMember_new hm _ _) count]
          · exact ih (List.cons_ne_nil _ _) (List.nodup_cons.mp hnodup).2 hlater
              (Nat.le_of_succ_le_succ hcount)
          · exact List.cons_ne_nil _ _

theorem length_le_writeMembers (k : Jwk) {ms : List Member} (hms : ms ≠ []) :
    ms.length ≤ (writeMembers k ms).length := by
  induction ms with
  | nil => exact absurd rfl hms
  | cons m ms ih =>
      cases ms with
      | nil =>
          simp only [writeMembers, List.length_append, List.length_cons, List.length_nil]
          omega
      | cons next ms =>
          have hrest := ih (List.cons_ne_nil _ _)
          simp only [writeMembers, List.length_append, List.length_cons] at hrest ⊢
          omega

theorem readObject_writeMembers (k : Jwk) :
    readObject (writeMembers k Member.all) = .ok (k, []) := by
  have hne : Member.all ≠ [] := List.cons_ne_nil _ _
  have hmembers : foldObject Fault.json takeMember Draft.empty (writeMembers k Member.all) =
      .ok (Member.all.foldl (fun d m => d.set m (k.get m)) Draft.empty, []) := by
    have hstart := @foldObject_quote _ _ Fault.json takeMember Member.kid.name Draft.empty
      (colon :: (quote k.kid ++ comma :: writeMembers k Member.all.tail))
    have hread := foldMembers_writeMembers k hne (by decide) (d := .empty) (fun _ _ => rfl)
      (length_le_writeMembers k hne) []
    rw [List.append_nil] at hread
    exact hstart.trans hread
  have hfull : Member.all.foldl (fun d m => d.set m (k.get m)) Draft.empty =
      fun m => some (k.get m) := by
    funext m
    cases m <;> rfl
  simp only [readObject, hmembers, hfull, bind, Except.bind, pure, Except.pure]
  rfl

theorem read_signingInput (k : Jwk) : read k.signingInput = .ok k := by
  rw [signingInput, read, skipSpace_cons (by decide)]
  simp only [if_pos, readObject_writeMembers, bind, Except.bind, pure, Except.pure]
  rfl

theorem isText_closeObject : Bytes.IsText [closeObject] := Bytes.isText_singleton (by decide)

theorem isText_writeMembers (k : Jwk) (ms : List Member) : Bytes.IsText (writeMembers k ms) := by
  induction ms with
  | nil => exact isText_closeObject
  | cons m ms ih =>
      cases ms with
      | nil =>
          have hvalue := (isText_quote (k.get m)).append isText_closeObject
          exact (isText_quote m.name).append (hvalue.cons (by decide))
      | cons next ms =>
          have hvalue := (isText_quote (k.get m)).append (ih.cons (c := comma) (by decide))
          exact (isText_quote m.name).append (hvalue.cons (by decide))

/-- What a signer signs to vouch for a key is a text that is read back as that key, whatever its
members are. So no two keys share it. -/
theorem signingInput_faithful :
    (∀ k : Jwk, ∃ text, Bytes.toText? k.signingInput = some text ∧ ofText text = .ok k) ∧
      ∀ k other : Jwk, k.signingInput = other.signingInput → k = other := by
  constructor
  · intro k
    obtain ⟨text, htext⟩ : Bytes.IsText k.signingInput :=
      (isText_writeMembers k Member.all).cons (by decide)
    refine ⟨text, ?_, ?_⟩
    · rw [← htext, Bytes.toText?_ofText]
    · rw [ofText, htext, read_signingInput]
  · intro k other hsame
    have hread := read_signingInput k
    rw [hsame, read_signingInput other] at hread
    exact (Except.ok.inj hread).symm

end Keyring.Jwk
