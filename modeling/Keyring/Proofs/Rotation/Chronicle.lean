import Keyring.Rotation.Clock

namespace Keyring

open Rotation

variable [Scheme] {ω : Type}

/-- An attempt to publish a fresh key: what it was given and what came of it. -/
structure Bid where
  trigger : Trigger
  signer : Option SigningKey
  draw : Draw
  earlier : Submissions
  /-- What there is to await; nothing if the attempt crashed. -/
  operation : Option Tracked

inductive Deed
  | attempt (bid : Bid)
  | cancel (t : Tracked)
  | observe (t : Tracked) (o : Outcome)

/-- What a loop has done so far, the newest first. -/
abbrev Deeds := List Deed

def Tracked.number? : Tracked → Option Nat
  | .submitted n => some n
  | _ => none

def Deed.number? : Deed → Option Nat
  | .attempt bid => bid.operation.bind Tracked.number?
  | .cancel t => t.number?
  | .observe t _ => t.number?

def Deed.success? : Deed → Option Tracked
  | .observe t (.ok _) => some t
  | _ => none

namespace Deeds

def about (n : Nat) (ds : Deeds) : Deeds := ds.filter fun d => d.number? = some n

def lastSuccess (ds : Deeds) : Option Tracked := ds.findSome? Deed.success?

def lastBid (ds : Deeds) : Option Bid :=
  ds.findSome? fun
    | .attempt bid => some bid
    | _ => none

def Finished (ds : Deeds) (n : Nat) : Prop :=
  .cancel (.submitted n) ∈ ds ∨ ∃ o, .observe (.submitted n) o ∈ ds

def Carries (ds : Deeds) (n : Nat) (k : SigningKey) : Prop :=
  ∃ bid, .attempt bid ∈ ds ∧ bid.operation = some (.submitted n) ∧ bid.draw = .key k

end Deeds

namespace Loop

def bid (w : World ω) (trigger : Trigger) (l : Loop ω) : Bid where
  trigger := trigger
  signer := l.slots.active
  draw := (w.draw l.world).1
  earlier := l.submissions
  operation := (Attempt.make w l.slots.active l.slots l.submissions l.world).result.toOption

def deeds (p : Plan ω) : Occurrence → Loop ω → Deeds
  | .stop, l => [.cancel l.tracked]
  | .tick, l => [.attempt ((l.cancel "superseded").bid p.world .scheduled), .cancel l.tracked]
  | .retry, l => [.attempt (l.bid p.world .retry)]
  | .outcome o, l => [.observe l.tracked o]

/-- What can happen next: the loop is served while something is ready, or something changes outside
of it. -/
inductive Turn (ω : Type)
  | serve (s : Signals) (now : Instant)
  | report (i : Nat) (outcome : Outcome)
  | abandon (i : Nat)
  | elapse (world : ω)

end Loop

/-- A loop with all that it has done. -/
structure Chronicle (ω : Type) where
  loop : Loop ω
  deeds : Deeds

namespace Chronicle

def new (world : ω) : Chronicle ω := ⟨.new world, []⟩

def serve (p : Plan ω) (s : Signals) (now : Instant) (c : Chronicle ω) : Chronicle ω :=
  if c.loop.started then
    match c.loop.next? s with
    | some o => ⟨c.loop.react p now o, c.loop.deeds p o ++ c.deeds⟩
    | none => c
  else ⟨c.loop.start p now, .attempt (c.loop.bid p.world .bootstrap) :: c.deeds⟩

def amend (i : Nat) (f : Submission → Submission) (c : Chronicle ω) : Chronicle ω :=
  { c with loop := { c.loop with submissions := c.loop.submissions.modify i f } }

def turn (p : Plan ω) (c : Chronicle ω) : Loop.Turn ω → Chronicle ω
  | .serve s now => c.serve p s now
  | .report i outcome => c.amend i fun s => (s.complete outcome).2
  | .abandon i => c.amend i Submission.abandon
  | .elapse world => { c with loop := { c.loop with world := world } }

def extend (p : Plan ω) (c : Chronicle ω) (turns : List (Loop.Turn ω)) : Chronicle ω :=
  turns.foldl (turn p) c

def run (p : Plan ω) (world : ω) (turns : List (Loop.Turn ω)) : Chronicle ω :=
  (new world).extend p turns

theorem extend_append (p : Plan ω) (c : Chronicle ω) (first second : List (Loop.Turn ω)) :
    c.extend p (first ++ second) = (c.extend p first).extend p second :=
  List.foldl_append

theorem extend_induction {p : Plan ω} {P : Chronicle ω → Prop}
    (hturn : ∀ c t, P c → P (c.turn p t)) {c : Chronicle ω} (h : P c)
    (turns : List (Loop.Turn ω)) : P (c.extend p turns) := by
  induction turns generalizing c with
  | nil => exact h
  | cons t turns ih => exact ih (hturn c t h)

theorem run_induction {p : Plan ω} {P : Chronicle ω → Prop} {world : ω} (hnew : P (new world))
    (hturn : ∀ c t, P c → P (c.turn p t)) (turns : List (Loop.Turn ω)) :
    P (run p world turns) :=
  extend_induction hturn hnew turns

theorem serve_cases (p : Plan ω) (s : Signals) (now : Instant) (c : Chronicle ω) :
    (c.loop.started = false ∧ c.serve p s now =
      ⟨c.loop.start p now, .attempt (c.loop.bid p.world .bootstrap) :: c.deeds⟩) ∨
    c.loop.started = true ∧ (c.serve p s now = c ∨ ∃ o, c.loop.next? s = some o ∧
      c.serve p s now = ⟨c.loop.react p now o, c.loop.deeds p o ++ c.deeds⟩) := by
  unfold serve
  cases hstarted : c.loop.started with
  | false => exact Or.inl ⟨rfl, rfl⟩
  | true =>
      refine Or.inr ⟨rfl, ?_⟩
      cases hnext : c.loop.next? s with
      | none => exact Or.inl rfl
      | some o => exact Or.inr ⟨o, rfl, rfl⟩

theorem deeds_suffix_serve (p : Plan ω) (s : Signals) (now : Instant) (c : Chronicle ω) :
    c.deeds <:+ (c.serve p s now).deeds := by
  rcases serve_cases p s now c with ⟨-, h⟩ | ⟨-, h | ⟨o, -, h⟩⟩
  · rw [h]
    exact List.suffix_cons _ _
  · exact h.symm ▸ List.suffix_rfl
  · rw [h]
    exact List.suffix_append _ _

theorem deeds_suffix_turn (p : Plan ω) (c : Chronicle ω) (t : Loop.Turn ω) :
    c.deeds <:+ (c.turn p t).deeds := by
  cases t with
  | serve s now => exact deeds_suffix_serve p s now c
  | report i outcome => exact List.suffix_rfl
  | abandon i => exact List.suffix_rfl
  | elapse world => exact List.suffix_rfl

theorem deeds_suffix_extend (p : Plan ω) (c : Chronicle ω) (turns : List (Loop.Turn ω)) :
    c.deeds <:+ (c.extend p turns).deeds :=
  extend_induction (P := fun d => c.deeds <:+ d.deeds)
    (fun d t h => h.trans (deeds_suffix_turn p d t)) List.suffix_rfl turns

end Chronicle

end Keyring
