import Keyring.Proofs.Rotation.Serving
import Keyring.Proofs.Rotation.Tenure
import Keyring.Proofs.Trial.Run
import Keyring.Service

namespace Keyring.Service

open Rotation

variable [Scheme]

/-- All that happens to a service on the way is that its loop is served, with the stop signal that
the service gives it. -/
structure Served (s s' : Service) : Prop where
  plan : s'.plan = s.plan
  ownership : s'.ownership = s.ownership
  token : s'.token = s.token
  loop : ∀ c : Chronicle (Trial Generator), c.loop = s.loop → ∃ servings,
    (∀ v ∈ servings, v.1.stop = s.stopping) ∧ (c.serveAll s.plan servings).loop = s'.loop

theorem served_settle (s : Service) : s.Served s.settle where
  plan := rfl
  ownership := rfl
  token := rfl
  loop c hc := by
    have hserved := Chronicle.exists_serveAll_serve s.plan s.stopping s.clock.instant c
    rw [hc] at hserved
    exact hserved

theorem served_jump (s : Service) (millis : Nat) : s.Served (s.jump millis) :=
  { s.served_settle with }

theorem served_sleep (s : Service) (millis : Nat) : s.Served (s.sleep millis) where
  plan := rfl
  ownership := rfl
  token := rfl
  loop _ hc := Chronicle.exists_serveAll_advance s.plan _ _ _ s.clock hc

theorem served_await (s : Service) (done : Service → Bool) (millis : Nat) :
    s.Served (s.await done millis) where
  plan := rfl
  ownership := rfl
  token := rfl
  loop c hc := by
    simp only [Service.await, Clocked.await, Service.loop]
    split
    · exact ⟨[], nofun, hc⟩
    · exact Chronicle.exists_serveAll_advance s.plan _ _ _ s.clock hc

/-- The loop of a service has come to where a run of a trial comes. -/
structure Plays (u : Trial.Setup Generator) (s : Service) : Prop where
  plan : s.plan = u.plan
  run : ∃ turns, (u.run turns).loop = s.loop

theorem plays_spawn (settings : Settings) (generator : Generator) (script : List Server.Verdict)
    (otherwise : Server.Verdict) (crashing : List Nat) (escalation : Escalation)
    (token : Option Bool) :
    Plays ⟨settings, Generator.draw, crashing, fun _ => escalation, 0, generator, script, otherwise⟩
      (spawn settings ⟨generator, .new script otherwise⟩ crashing escalation token) :=
  ⟨rfl, [], rfl⟩

namespace Plays

variable {u : Trial.Setup Generator} {s s' : Service}

theorem of_eq (h : s.Plays u) (hplan : s'.plan = s.plan) (hloop : s'.loop = s.loop) :
    s'.Plays u := by
  obtain ⟨turns, hturns⟩ := h.run
  exact ⟨hplan.trans h.plan, turns, hturns.trans hloop.symm⟩

theorem of_served (h : s.Plays u) (hserved : s.Served s') : s'.Plays u := by
  obtain ⟨turns, hturns⟩ := h.run
  obtain ⟨servings, -, hservings⟩ := hserved.loop _ hturns
  refine ⟨hserved.plan.trans h.plan, turns ++ servings.map fun s => .serve s.1 s.2, ?_⟩
  rw [← hservings, h.plan, Trial.Setup.run, List.foldl_append, List.foldl_map]
  rfl

theorem conclude (h : s.Plays u) (task : String) : (s.conclude task).2.Plays u := by
  unfold Service.conclude
  split
  · exact h.of_eq rfl rfl
  · exact h.of_eq rfl rfl

theorem join (h : s.Plays u) (task : String) (millis : Nat) : (s.join task millis).2.Plays u := by
  unfold Service.join
  split
  · have hjoining : ({ s with ownership := s.ownership.join } : Service).poll.Plays u :=
      h.of_eq rfl rfl
    exact (hjoining.of_served (served_await _ _ millis)).conclude task
  · exact h

theorem shutdown (h : s.Plays u) (task : String) : (s.shutdown task).2.Plays u := by
  unfold Service.shutdown
  split
  · have hstopping : ({ s with ownership := s.ownership.shutdown } : Service).poll.Plays u :=
      h.of_eq rfl rfl
    exact (hstopping.of_served (served_settle _)).conclude task
  · exact h

theorem complete (h : s.Plays u) (i : Nat) (outcome : Outcome) :
    (s.complete i outcome).2.Plays u := by
  obtain ⟨turns, hturns⟩ := h.run
  refine ⟨h.plan, turns ++ [.complete i outcome], ?_⟩
  rw [Trial.Setup.run, List.foldl_append]
  show ((u.run turns).loop.complete i outcome).2 = (s.complete i outcome).2.loop
  rw [hturns]
  rfl

end Plays

/-- The loop of a service, its handle and its token are what they are in a tenure. -/
structure Matches (t : Tenure (Trial Generator)) (s : Service) : Prop where
  loop : t.record.loop = s.loop
  ownership : t.ownership = s.ownership
  token : t.token = (s.token == some true)

theorem Matches.stopping {t : Tenure (Trial Generator)} {s : Service} (h : Matches t s) :
    t.stopping = s.stopping := by
  rw [Tenure.stopping, h.ownership, h.token]
  rfl

/-- A service has come to where the tenure of an owner comes. -/
def Tended (world : Trial Generator) (s : Service) : Prop :=
  ∃ turns, Matches (.run s.plan world turns) s

theorem tended_spawn (settings : Settings) (trial : Trial Generator) (crashing : List Nat)
    (escalation : Escalation) (token : Option Bool) :
    (spawn settings trial crashing escalation token).Tended trial := by
  cases htoken : token == some true with
  | true => exact ⟨[.cancelToken], rfl, rfl, htoken.symm⟩
  | false => exact ⟨[], rfl, rfl, htoken.symm⟩

namespace Tended

variable {world : Trial Generator} {s s' : Service}

theorem of_turns (h : s.Tended world) (hplan : s'.plan = s.plan)
    (hmore : ∀ t, Matches t s → ∃ more, Matches (t.extend s.plan more) s') : s'.Tended world := by
  obtain ⟨turns, hturns⟩ := h
  obtain ⟨more, hmatches⟩ := hmore _ hturns
  refine ⟨turns ++ more, ?_⟩
  rw [hplan, Tenure.run, Tenure.extend_append]
  exact hmatches

theorem of_served (h : s.Tended world) (hserved : s.Served s') : s'.Tended world := by
  apply h.of_turns hserved.plan
  intro t ht
  obtain ⟨servings, hstop, hservings⟩ := hserved.loop _ ht.loop
  refine ⟨servings.map fun v => .loop (.serve v.1 v.2), ?_⟩
  rw [Tenure.extend_serveAll]
  · refine ⟨hservings, ?_, ?_⟩
    · rw [hserved.ownership]
      exact ht.ownership
    · rw [hserved.token]
      exact ht.token
  · rw [ht.stopping]
    exact hstop

theorem use (h : s.Tended world) (u : Use) :
    ({ s with ownership := s.ownership.use s.loop.hasEnded u } : Service).Tended world := by
  refine h.of_turns rfl ?_
  intro t ht
  obtain ⟨uses, hturn⟩ := Tenure.turn_use s.plan t u
  refine ⟨[.use u], ?_⟩
  show Matches (t.turn s.plan (.use u)) _
  rw [hturn, Tenure.ended, ht.loop, ht.ownership]
  exact ⟨ht.loop, rfl, ht.token⟩

theorem cancelToken (h : s.Tended world) : s.cancelToken.Tended world := by
  refine h.of_turns rfl ?_
  intro t ht
  cases htoken : s.token with
  | none =>
      refine ⟨[], ht.loop, ht.ownership, ht.token.trans ?_⟩
      simp [Service.cancelToken, htoken]
  | some cancelled =>
      refine ⟨[.cancelToken], ht.loop, ht.ownership, ?_⟩
      simp only [Service.cancelToken, htoken]
      rfl

theorem conclude (h : s.Tended world) (task : String) : (s.conclude task).2.Tended world := by
  unfold Service.conclude
  split
  · exact h.use .poll
  · exact h.use .giveUp

theorem join (h : s.Tended world) (task : String) (millis : Nat) :
    (s.join task millis).2.Tended world := by
  unfold Service.join
  split
  · have hjoining := (h.use .join).use .poll
    exact (hjoining.of_served (served_await _ _ millis)).conclude task
  · exact h

theorem shutdown (h : s.Tended world) (task : String) : (s.shutdown task).2.Tended world := by
  unfold Service.shutdown
  split
  · have hstopping := (h.use .shutdown).use .poll
    exact (hstopping.of_served (served_settle _)).conclude task
  · exact h

theorem complete (h : s.Tended world) (i : Nat) (outcome : Outcome) :
    (s.complete i outcome).2.Tended world := by
  refine h.of_turns rfl ?_
  intro t ht
  rcases s with ⟨plan, escalation, ⟨now, loop⟩, ownership, token, seen, read⟩
  obtain rfl : t.record.loop = loop := ht.loop
  by_cases hheld : t.record.loop.world.server.held.contains i = true
  · refine ⟨[.loop (.report i outcome),
      .loop (.elapse (t.record.loop.complete i outcome).2.world)], ?_, ht.ownership, ht.token⟩
    simp only [Service.complete, Service.loop, Loop.complete, Server.complete, hheld, if_true]
    rfl
  · refine ⟨[], ?_, ht.ownership, ht.token⟩
    simp only [Service.complete, Service.loop, Loop.complete, Server.complete, hheld]
    rfl

end Tended

end Keyring.Service
