import Keyring.Json.Members
import Keyring.Proofs.Json.Text

namespace Keyring.Json

theorem skipSpace_cons {b : UInt8} (h : isSpace b = false) (rest : Bytes) :
    skipSpace (b :: rest) = b :: rest := by
  simp [skipSpace, h]

theorem isSpace_comma : isSpace comma = false := by decide

theorem isSpace_colon : isSpace colon = false := by decide

theorem isSpace_closeList : isSpace closeList = false := by decide

theorem isSpace_closeObject : isSpace closeObject = false := by decide

theorem expectColon_colon (rest : Bytes) : expectColon (colon :: rest) = .ok rest := by
  rw [expectColon, skipSpace_cons isSpace_colon]
  exact if_pos rfl

section Named

variable {α β : Type} {name other : String} {m : String × α} {ms : List (String × α)}

theorem named_of_eq (h : m.1 = name) : named name (m :: ms) = m.2 :: named name ms := by
  simp [named, h]

theorem named_of_ne (h : m.1 ≠ name) : named name (m :: ms) = named name ms := by
  simp [named, h]

theorem named_append (name : String) (ms ns : List (String × α)) :
    named name (ms ++ ns) = named name ms ++ named name ns := by
  simp [named]

theorem named_toList (a : Option α) (f : α → β) :
    named name (a.toList.map fun a => (other, f a)) =
      if other = name then a.toList.map f else [] := by
  cases a with
  | none => simp [named]
  | some a =>
      split
      · rename_i hname
        exact named_of_eq hname
      · rename_i hname
        exact named_of_ne hname

end Named

section

variable {σ ε : Type} {fault : Fault → ε} {take : String → σ → Bytes → Except ε (σ × Bytes)}

section Step

variable {name : String} {s s' : σ} {text body mid after rest : Bytes}

theorem foldMembers_error (hstart : skipSpace text = quoteMark :: body)
    (hname : readText body = .ok (name, mid)) {e : ε} (h : take name s mid = .error e)
    (count : Nat) : foldMembers fault take (count + 1) s text = .error e := by
  simp only [foldMembers, hstart, if_pos, hname, h]

theorem foldMembers_close (hstart : skipSpace text = quoteMark :: body)
    (hname : readText body = .ok (name, mid)) (h : take name s mid = .ok (s', after))
    (hclose : skipSpace after = closeObject :: rest) (count : Nat) :
    foldMembers fault take (count + 1) s text = .ok (s', rest) := by
  simp only [foldMembers, hstart, if_pos, hname, h, hclose]

theorem foldMembers_next (hstart : skipSpace text = quoteMark :: body)
    (hname : readText body = .ok (name, mid)) (h : take name s mid = .ok (s', after))
    (hcomma : skipSpace after = comma :: rest) (count : Nat) :
    foldMembers fault take (count + 1) s text = foldMembers fault take count s' rest := by
  simp only [foldMembers, hstart, if_pos, hname, h, hcomma,
    if_neg (show comma ≠ closeObject by decide)]

end Step

theorem foldMembers_last {name : String} {s s' : σ} {text rest : Bytes}
    (h : take name s text = .ok (s', closeObject :: rest)) (count : Nat) :
    foldMembers fault take (count + 1) s (quote name ++ text) = .ok (s', rest) := by
  obtain ⟨body, hquote, hread⟩ := exists_readText_quote name text
  rw [hquote]
  have hclose := skipSpace_cons isSpace_closeObject rest
  exact foldMembers_close (skipSpace_cons (by decide) _) hread h hclose count

theorem foldMembers_more {name : String} {s s' : σ} {text rest : Bytes}
    (h : take name s text = .ok (s', comma :: rest)) (count : Nat) :
    foldMembers fault take (count + 1) s (quote name ++ text) =
      foldMembers fault take count s' rest := by
  obtain ⟨body, hquote, hread⟩ := exists_readText_quote name text
  rw [hquote]
  have hcomma := skipSpace_cons isSpace_comma rest
  exact foldMembers_next (skipSpace_cons (by decide) _) hread h hcomma count

theorem foldObject_quote (name : String) (s : σ) (text : Bytes) :
    foldObject fault take s (quote name ++ text) =
      foldMembers fault take (quote name ++ text).length s (quote name ++ text) := by
  obtain ⟨body, hquote, -⟩ := exists_readText_quote name text
  rw [hquote, foldObject, skipSpace_cons (by decide)]
  exact if_neg (by decide)

end

end Keyring.Json
