import Keyring.Proofs.Attempt
import Keyring.Proofs.Exchange

namespace Keyring

variable [Scheme] {ω : Type}

/-- Two slots, and what the attempts to fill them depend on. -/
structure Custody (ω : Type) where
  slots : Slots
  submissions : Submissions
  world : ω

namespace Custody

/-- What is done with the slots. Each attempt may have another source of keys, another key server
and another signer. -/
inductive Call (ω : Type)
  | attempt (w : World ω) (signer : Option SigningKey)
  | promote

def new (world : ω) : Custody ω := ⟨.empty, [], world⟩

def attempt (w : World ω) (signer : Option SigningKey) (c : Custody ω) : Attempt ω :=
  Attempt.make w signer c.slots c.submissions c.world

def step (c : Custody ω) : Call ω → Custody ω
  | .attempt w signer =>
      let a := c.attempt w signer
      ⟨a.slots, a.submissions, a.world⟩
  | .promote => { c with slots := c.slots.promote }

def run (c : Custody ω) (calls : List (Call ω)) : Custody ω := calls.foldl step c

/-- The key that is made for a call. -/
def made? (c : Custody ω) : Call ω → Option SigningKey
  | .attempt w _ => (w.draw c.world).1.key?
  | .promote => none

/-- The key that a call finds waiting and brings into use. -/
def found? (c : Custody ω) : Call ω → Option SigningKey
  | .attempt _ _ => none
  | .promote => c.slots.pending

/-- What the calls come with, in their order. -/
def collect (f : Custody ω → Call ω → Option SigningKey) (c : Custody ω) :
    List (Call ω) → List SigningKey
  | [] => []
  | call :: calls => (f c call).toList ++ collect f (c.step call) calls

def made (c : Custody ω) (calls : List (Call ω)) : List SigningKey := c.collect made? calls

def found (c : Custody ω) (calls : List (Call ω)) : List SigningKey := c.collect found? calls

theorem run_concat (c : Custody ω) (calls : List (Call ω)) (call : Call ω) :
    c.run (calls ++ [call]) = (c.run calls).step call := by
  simp [run]

theorem collect_concat (f : Custody ω → Call ω → Option SigningKey) (c : Custody ω)
    (calls : List (Call ω)) (call : Call ω) :
    c.collect f (calls ++ [call]) = c.collect f calls ++ (f (c.run calls) call).toList := by
  induction calls generalizing c with
  | nil => simp [collect, run]
  | cons first calls ih =>
      simp only [List.cons_append, collect, ih, List.append_assoc]
      rfl

/-- What a call does to the slots, with the key that is made for it and the one that it finds. -/
inductive Change (s : Slots) : Option SigningKey → Option SigningKey → Slots → Prop
  | proposed (k : SigningKey) : Change s (some k) none (s.propose k)
  | withdrawn : Change s none none s.withdraw
  | kept : Change s none none s
  | promoted {k : SigningKey} (h : s.pending = some k) : Change s none (some k) ⟨some k, none⟩

theorem promote_of_pending {s : Slots} {k : SigningKey} (h : s.pending = some k) :
    s.promote = ⟨some k, none⟩ := by
  simp [Slots.promote, h]

theorem promote_of_none {s : Slots} (h : s.pending = none) : s.promote = s := by
  simp [Slots.promote, h]

theorem change_step (c : Custody ω) (call : Call ω) :
    Change c.slots (c.made? call) (c.found? call) (c.step call).slots := by
  cases call with
  | attempt w signer =>
      simp only [step, attempt, made?, found?, Attempt.slots_make]
      cases (w.draw c.world).1 with
      | key k => exact .proposed k
      | failed e => exact .withdrawn
      | crashed text => exact .kept
  | promote =>
      simp only [step, made?, found?]
      cases hpending : c.slots.pending with
      | some k =>
          rw [promote_of_pending hpending]
          exact .promoted hpending
      | none =>
          rw [promote_of_none hpending]
          exact .kept

/-- How the slots follow from the keys that were made and those that were found waiting. -/
structure Follows (made found : List SigningKey) (s : Slots) : Prop where
  active : s.active = found.getLast?
  held : (s.active.toList ++ s.pending.toList).Sublist made

theorem Follows.change {made found : List SigningKey} {s t : Slots} {m f : Option SigningKey}
    (h : Follows made found s) (hchange : Change s m f t) :
    Follows (made ++ m.toList) (found ++ f.toList) t := by
  have hactive : s.active.toList.Sublist made := (List.sublist_append_left _ _).trans h.held
  cases hchange with
  | proposed k =>
      refine ⟨?_, hactive.append (.refl [k])⟩
      rw [Option.toList_none, List.append_nil]
      exact h.active
  | withdrawn =>
      simp only [Option.toList_none, List.append_nil]
      exact ⟨h.active, by simpa [Slots.withdraw] using hactive⟩
  | kept =>
      simp only [Option.toList_none, List.append_nil]
      exact h
  | promoted hpending =>
      have hwaiting := (List.sublist_append_right _ _).trans h.held
      rw [hpending] at hwaiting
      refine ⟨by simp, ?_⟩
      simpa using hwaiting

theorem follows_run (world : ω) (calls : List (Call ω)) :
    Follows ((new world).made calls) ((new world).found calls) ((new world).run calls).slots := by
  induction calls using List.reverseRecOn with
  | nil => exact ⟨rfl, .refl []⟩
  | append_singleton calls call ih =>
      rw [made, found, run_concat, collect_concat, collect_concat]
      exact ih.change (change_step _ call)

/-- The law of the two slots, for whatever is done with them. An attempt leaves the key in use
alone. It calls the key server once with the key that was made, and this key waits in place of any
other; without a key it calls nobody, none waits, and the failure is delivered once. A promotion
brings the waiting key into use, and changes nothing if there is none. So the key in use is the one
that was found last, and a key in both slots was made twice. -/
theorem slots_in_step (world : ω) (calls : List (Call ω)) :
    let c := (new world).run calls
    (∀ (w : World ω) (signer : Option SigningKey) (record : List (Jwk × SigningKey)),
      let a := c.attempt w signer
      let b := Attempt.make w.recorded signer c.slots c.submissions (c.world, record)
      b = ⟨a.slots, a.submissions, (a.world, b.world.2), a.result, a.events⟩ ∧
      a.slots.active = c.slots.active ∧
      (∀ k, (w.draw c.world).1 = .key k →
        b.world.2 = record ++ [(k.jwk, signer.getD k)] ∧ a.slots.pending = some k) ∧
      (∀ e, (w.draw c.world).1 = .failed e →
        b.world.2 = record ∧ a.slots.pending = none ∧
        ∃ t, a.result = .ok t ∧ Exchange.DeliversOnce (t.submission a.submissions)
          (.error (.keyGeneration e.message))) ∧
      ∀ text, (w.draw c.world).1 = .crashed text → b.world.2 = record ∧ a.slots = c.slots) ∧
    (∀ k, c.slots.pending = some k → (c.step .promote).slots = ⟨some k, none⟩) ∧
    (c.slots.pending = none → c.step .promote = c) ∧
    c.slots.active = ((new world).found calls).getLast? ∧
    ∀ k, c.slots.active = some k → c.slots.pending = some k →
      [k, k].Sublist ((new world).made calls) := by
  intro c
  have h := follows_run world calls
  refine ⟨?_, fun k => promote_of_pending, ?_, h.active, ?_⟩
  · intro w signer record a b
    have hslots : a.slots = _ := Attempt.slots_make w signer c.slots c.submissions c.world
    have hb : b = _ := Attempt.make_recorded w signer c.slots c.submissions c.world record
    have hrecord : b.world.2 = record ++ Attempt.offered w signer c.world := by rw [hb]
    refine ⟨?_, Attempt.active_make w signer c.slots c.submissions c.world, ?_, ?_, ?_⟩
    · rw [hrecord]
      exact hb
    · intro k hk
      rw [hk] at hslots
      rw [hrecord, hslots, Attempt.offered, hk]
      exact ⟨rfl, rfl⟩
    · intro e he
      rw [he] at hslots
      rw [hrecord, hslots, Attempt.offered, he]
      refine ⟨List.append_nil _, rfl, _, Attempt.result_make_of_failed _ _ _ _ _ he, ?_⟩
      exact Exchange.deliversOnce_failed _
    · intro text htext
      rw [htext] at hslots
      rw [hrecord, hslots, Attempt.offered, htext]
      exact ⟨List.append_nil _, rfl⟩
  · intro hnone
    simp only [step, promote_of_none hnone]
  · intro k hactive hpending
    have hheld := h.held
    rw [hactive, hpending] at hheld
    exact hheld

-- A key that is made twice does get into both slots.
example (k : SigningKey) (escalate : PublishError → Escalation) :
    let w : World Unit := ⟨fun _ => (.key k, ()), fun _ _ _ _ => (.accepted none, ()), escalate⟩
    ((new ()).run [.attempt w none, .promote, .attempt w none]).slots = ⟨some k, some k⟩ := rfl

end Custody

end Keyring
