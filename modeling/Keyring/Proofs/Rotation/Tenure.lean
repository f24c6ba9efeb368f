import Keyring.Proofs.Rotation.Stop
import Keyring.Rotation.Ownership

namespace Keyring

open Rotation

namespace Rotation

/-- What the owner of a loop does with its handle, or with the call that the handle was given to. -/
inductive Use
  | stop
  | drop
  | join
  | shutdown
  | poll
  | giveUp
  deriving DecidableEq, Repr

namespace Use

def applies : Use → Handle → Bool
  | .stop, .owned => true
  | .drop, .owned => true
  | .join, .owned => true
  | .shutdown, .owned => true
  | .poll, .given _ => true
  | .poll, .waiting => true
  | .giveUp, .given _ => true
  | .giveUp, .waiting => true
  | _, _ => false

theorem applies_gone {u : Use} {h : Handle} (hgone : h = .gone) : u.applies h = false := by
  rw [hgone]
  cases u <;> rfl

def call (shutdown : Bool) : Use := if shutdown then .shutdown else .join

end Use

def Ownership.use (ended : Bool) (o : Ownership) : Use → Ownership
  | .stop => o.stop
  | .drop => o.drop
  | .join => o.join
  | .shutdown => o.shutdown
  | .poll => o.poll ended
  | .giveUp => o.giveUp

theorem Ownership.use_of_not_applies {o : Ownership} {u : Use} (h : u.applies o.handle = false)
    (ended : Bool) : o.use ended u = o := by
  rcases o with ⟨handle, stopped⟩
  cases u <;> cases handle <;> first | rfl | cases h

/-- What has become of a loop's handle, and all the uses that led there, the newest first. -/
inductive Course (ended : Bool) : Ownership → List Use → Prop
  | owned (stops : Nat) :
      Course ended ⟨.owned, decide (0 < stops)⟩ (.replicate stops .stop)
  | dropped (stops : Nat) : Course ended ⟨.gone, true⟩ (.drop :: .replicate stops .stop)
  | given (stops : Nat) (shutdown : Bool) :
      Course ended ⟨.given shutdown, decide (0 < stops)⟩
        (.call shutdown :: .replicate stops .stop)
  | withdrawn (stops : Nat) (shutdown : Bool) :
      Course ended ⟨.gone, true⟩ (.giveUp :: .call shutdown :: .replicate stops .stop)
  | waiting (stops polls : Nat) (shutdown : Bool) :
      Course ended ⟨.waiting, decide (0 < stops) || shutdown⟩
        (.replicate (polls + 1) .poll ++ .call shutdown :: .replicate stops .stop)
  | abandoned (stops polls : Nat) (shutdown : Bool) :
      Course ended ⟨.gone, decide (0 < stops) || shutdown⟩
        (.giveUp :: (.replicate (polls + 1) .poll ++ .call shutdown :: .replicate stops .stop))
  | resolved (stops polls : Nat) (shutdown : Bool) (h : ended = true) :
      Course ended ⟨.gone, decide (0 < stops) || shutdown⟩
        (.replicate (polls + 1) .poll ++ .call shutdown :: .replicate stops .stop)

/-- The owner waited for the end of the loop, which it had never stopped, and gave up waiting. -/
def Deserted (uses : List Use) : Prop :=
  ∃ polls, uses = .giveUp :: (.replicate (polls + 1) .poll ++ [.join])

theorem Deserted.not_mem {uses : List Use} (h : Deserted uses) :
    .stop ∉ uses ∧ .shutdown ∉ uses := by
  obtain ⟨polls, rfl⟩ := h
  simp

namespace Course

variable {ended : Bool} {o : Ownership} {uses : List Use}

theorem use (h : Course ended o uses) (u : Use) (happlies : u.applies o.handle = true) :
    Course ended (o.use ended u) (u :: uses) := by
  cases h with
  | owned stops =>
      cases u with
      | stop => exact .owned (stops + 1)
      | drop => exact .dropped stops
      | join => exact .given stops false
      | shutdown => exact .given stops true
      | poll => cases happlies
      | giveUp => cases happlies
  | given stops shutdown =>
      cases u with
      | poll =>
          cases ended with
          | true => exact .resolved stops 0 shutdown rfl
          | false => exact .waiting stops 0 shutdown
      | giveUp => exact .withdrawn stops shutdown
      | _ => cases happlies
  | waiting stops polls shutdown =>
      cases u with
      | poll =>
          cases ended with
          | true => exact .resolved stops (polls + 1) shutdown rfl
          | false => exact .waiting stops (polls + 1) shutdown
      | giveUp => exact .abandoned stops polls shutdown
      | _ => cases happlies
  | _ => cases u <;> cases happlies

theorem mono (h : Course ended o uses) {later : Bool} (hlater : ended = true → later = true) :
    Course later o uses := by
  cases h with
  | owned stops => exact .owned stops
  | dropped stops => exact .dropped stops
  | given stops shutdown => exact .given stops shutdown
  | withdrawn stops shutdown => exact .withdrawn stops shutdown
  | waiting stops polls shutdown => exact .waiting stops polls shutdown
  | abandoned stops polls shutdown => exact .abandoned stops polls shutdown
  | resolved stops polls shutdown h => exact .resolved stops polls shutdown (hlater h)

theorem not_stopped_iff (h : Course false o uses) (hgone : o.handle = .gone) :
    o.stopped = false ↔ Deserted uses := by
  cases h with
  | owned stops => cases hgone
  | given stops shutdown => cases hgone
  | waiting stops polls shutdown => cases hgone
  | resolved stops polls shutdown h => cases h
  | dropped stops =>
      refine ⟨nofun, ?_⟩
      rintro ⟨polls, huses⟩
      cases huses
  | withdrawn stops shutdown =>
      refine ⟨nofun, ?_⟩
      rintro ⟨polls, huses⟩
      cases shutdown <;> cases huses
  | abandoned stops polls shutdown =>
      constructor
      · intro hstopped
        simp only [Bool.or_eq_false_iff, decide_eq_false_iff_not, Nat.not_lt, Nat.le_zero]
          at hstopped
        obtain ⟨rfl, rfl⟩ := hstopped
        exact ⟨polls, rfl⟩
      · intro hdeserted
        obtain ⟨hstop, hshutdown⟩ := hdeserted.not_mem
        cases shutdown with
        | true => exact absurd (by simp [Use.call]) hshutdown
        | false =>
            cases stops with
            | zero => rfl
            | succ stops => exact absurd (by simp) hstop

end Course

end Rotation

section

variable [Scheme] {ω : Type}

def Loop.Turn.withStop (stop : Bool) : Loop.Turn ω → Loop.Turn ω
  | .serve s now => .serve { s with stop } now
  | t => t

/-- A loop with its owner, and with a token of others that stops it as well. -/
structure Tenure (ω : Type) where
  record : Chronicle ω
  ownership : Ownership
  token : Bool
  /-- What the owner did, the newest first. -/
  uses : List Use

namespace Tenure

inductive Turn (ω : Type)
  | use (u : Use)
  | cancelToken
  | loop (t : Loop.Turn ω)

def new (world : ω) : Tenure ω := ⟨.new world, .new, false, []⟩

def ended (t : Tenure ω) : Bool := t.record.loop.hasEnded

def stopping (t : Tenure ω) : Bool := t.ownership.stopped || t.token

def turn (p : Plan ω) (t : Tenure ω) : Turn ω → Tenure ω
  | .use u =>
      if u.applies t.ownership.handle then
        { t with ownership := t.ownership.use t.ended u, uses := u :: t.uses }
      else t
  | .cancelToken => { t with token := true }
  | .loop turn => { t with record := t.record.turn p (turn.withStop t.stopping) }

def extend (p : Plan ω) (t : Tenure ω) (turns : List (Turn ω)) : Tenure ω :=
  turns.foldl (turn p) t

def run (p : Plan ω) (world : ω) (turns : List (Turn ω)) : Tenure ω := (new world).extend p turns

theorem extend_append (p : Plan ω) (t : Tenure ω) (first second : List (Turn ω)) :
    t.extend p (first ++ second) = (t.extend p first).extend p second :=
  List.foldl_append

theorem turn_use (p : Plan ω) (t : Tenure ω) (u : Use) :
    ∃ uses, t.turn p (.use u) =
      { t with ownership := t.ownership.use t.ended u, uses } := by
  unfold turn
  dsimp only
  split
  · exact ⟨_, rfl⟩
  · rename_i happlies
    refine ⟨t.uses, ?_⟩
    rw [Ownership.use_of_not_applies (eq_false_of_ne_true happlies)]

theorem extend_serveAll (p : Plan ω) (t : Tenure ω) {servings : List (Signals × Instant)}
    (h : ∀ s ∈ servings, s.1.stop = t.stopping) :
    t.extend p (servings.map fun s => .loop (.serve s.1 s.2)) =
      { t with record := t.record.serveAll p servings } := by
  induction servings generalizing t with
  | nil => rfl
  | cons s servings ih =>
      obtain ⟨hs, hrest⟩ := List.forall_mem_cons.mp h
      have hserve : t.turn p (.loop (.serve s.1 s.2)) =
          { t with record := t.record.serve p s.1 s.2 } := by
        rcases s with ⟨⟨stop, tick, backoff⟩, now⟩
        cases hs
        rfl
      show (t.turn p (.loop (.serve s.1 s.2))).extend p _ = _
      rw [hserve]
      exact ih _ hrest

/-- The loop is that of a run, and the uses account for what has become of its handle. -/
structure Sound (p : Plan ω) (world : ω) (t : Tenure ω) : Prop where
  record : ∃ turns, t.record = .run p world turns
  course : Course t.ended t.ownership t.uses

section

variable {p : Plan ω} {world : ω} {t : Tenure ω}

theorem sound_new (p : Plan ω) (world : ω) : Sound p world (new world) :=
  ⟨⟨[], rfl⟩, .owned 0⟩

theorem Sound.ended_turn (h : Sound p world t) (turn : Loop.Turn ω) (hended : t.ended = true) :
    (t.record.turn p turn).loop.hasEnded = true := by
  obtain ⟨turns, hrun⟩ := h.record
  have hsound : t.record.Sound := hrun ▸ Chronicle.sound_run p world turns
  have hending : t.record.loop.ending ≠ none := Option.isSome_iff_ne_none.mp hended
  have hstarted := hsound.posture.started_of_ending hending
  obtain ⟨submissions, world', heq⟩ := Chronicle.extend_of_ended p hstarted hending [turn]
  have hturn : t.record.turn p turn = _ := heq
  rw [hturn]
  exact hended

theorem sound_turn (h : Sound p world t) (turn : Turn ω) : Sound p world (t.turn p turn) := by
  cases turn with
  | use u =>
      unfold Tenure.turn
      dsimp only
      split
      · rename_i happlies
        exact ⟨h.record, h.course.use u happlies⟩
      · exact h
  | cancelToken => exact ⟨h.record, h.course⟩
  | loop turn =>
      obtain ⟨turns, hrun⟩ := h.record
      refine ⟨⟨turns ++ [turn.withStop t.stopping], ?_⟩, h.course.mono (h.ended_turn _)⟩
      rw [Chronicle.run, Chronicle.extend_append, ← Chronicle.run, ← hrun]
      rfl

theorem sound_extend (h : Sound p world t) (turns : List (Turn ω)) :
    Sound p world (t.extend p turns) := by
  induction turns generalizing t with
  | nil => exact h
  | cons turn turns ih => exact ih (sound_turn h turn)

theorem sound_run (p : Plan ω) (world : ω) (turns : List (Turn ω)) :
    Sound p world (run p world turns) :=
  sound_extend (sound_new p world) turns

theorem turn_use_of_gone (hgone : t.ownership.handle = .gone) (u : Use) :
    t.turn p (.use u) = t := by
  apply if_neg
  rw [Use.applies_gone hgone]
  nofun

theorem turn_of_gone (hgone : t.ownership.handle = .gone) {turn : Turn ω}
    (hturn : turn ≠ .cancelToken) :
    (t.turn p turn).ownership = t.ownership ∧ (t.turn p turn).token = t.token := by
  cases turn with
  | use u =>
      rw [turn_use_of_gone hgone]
      exact ⟨rfl, rfl⟩
  | cancelToken => exact absurd rfl hturn
  | loop turn => exact ⟨rfl, rfl⟩

theorem stopping_of_gone (hgone : t.ownership.handle = .gone) {more : List (Turn ω)}
    (hmore : .cancelToken ∉ more) : (t.extend p more).stopping = t.stopping := by
  induction more generalizing t with
  | nil => rfl
  | cons turn more ih =>
      have hturn : turn ≠ .cancelToken := fun h => hmore (h ▸ List.mem_cons_self)
      have hrest := fun h => hmore (List.mem_cons_of_mem turn h)
      obtain ⟨hownership, htoken⟩ := turn_of_gone (p := p) hgone hturn
      have hstopping : (t.turn p turn).stopping = t.stopping := by
        rw [stopping, hownership, htoken]
        rfl
      exact (ih (hownership ▸ hgone) hrest).trans hstopping

end

/-- Once the handle of a loop is gone, with the call it was given to, the loop has ended or is being
stopped, but for one case: its owner waited for the end of the loop without ever stopping it, and
gave up waiting. Then only the token of others can stop it. -/
theorem signalled_iff (p : Plan ω) (world : ω) (turns : List (Turn ω)) :
    let t := run p world turns
    (t.ownership.handle = .gone →
      (t.ended = true ∨ t.stopping = true ↔
        (Deserted t.uses → t.ended = true ∨ t.token = true))) ∧
    (t.ownership.handle = .gone → ∀ more, .cancelToken ∉ more →
      (t.extend p more).stopping = t.stopping) := by
  intro t
  refine ⟨?_, fun hgone more hmore => stopping_of_gone hgone hmore⟩
  intro hgone
  have hcourse : Course t.ended t.ownership t.uses := (sound_run p world turns).course
  cases hended : t.ended with
  | true => simp
  | false =>
      rw [hended] at hcourse
      rw [← hcourse.not_stopped_iff hgone]
      cases hstopped : t.ownership.stopped <;> simp [stopping, hstopped]

end Tenure

end

namespace Tenure

/-- The loop goes on to rotate its key, and its owner can stop it no more. -/
theorem outlives_owner :
    letI : Scheme := .plain
    let serve (tick : Bool) : Turn Unit := .loop (.serve ⟨false, tick, false⟩ 0)
    let t := run Chronicle.eager () [serve false, .use .join, .use .poll, .use .giveUp,
      serve false, serve true]
    t.ownership.handle = .gone ∧ ¬ (t.ended = true ∨ t.stopping = true) ∧
      t.record.loop.phase = .awaiting ∧ t.record.loop.completed = 1 := by
  decide +kernel

end Tenure

end Keyring
