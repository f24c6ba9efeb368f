import Keyring.Proofs.Rotation.Ending

namespace Keyring

open Rotation

namespace Machine

inductive Stage
  | bootstrapping
  | awaiting
  | idle
  | stopped
  | fatal (e : PublishError)
  deriving DecidableEq

end Machine

def Rotation.Phase.stage? : Phase → Option Machine.Stage
  | .bootstrapping => some .bootstrapping
  | .awaiting => some .awaiting
  | .idle => some .idle
  | .stopped => some .stopped
  | .backingOff => none
  | .failed => none

section

variable [Scheme]

/-- A machine that keeps a key confirmed. It awaits one operation at most, it knows no retry, and
the first error is its end. -/
structure Machine where
  stage : Machine.Stage
  active : Option SigningKey
  pending : Option SigningKey
  /-- What is outstanding, if anything is. -/
  operation : Tracked

namespace Machine

def initial : Machine := ⟨.bootstrapping, none, none, .inert⟩

/-- What an attempt gets: a fresh key with a submission of it, or an operation that has failed. -/
inductive Offer
  | submitted (k : SigningKey) (number : Nat)
  | failed (e : PublishError)

def Offer.key? : Offer → Option SigningKey
  | .submitted k _ => some k
  | .failed _ => none

def Offer.operation : Offer → Tracked
  | .submitted _ number => .submitted number
  | .failed e => .failed e

inductive Input
  | start (o : Offer)
  | stop
  | timer (o : Offer)
  | completed (t : Tracked) (outcome : Outcome)

inductive Act
  | cancel (t : Tracked)
  | attempt (signer : Option SigningKey) (o : Offer)

def await (o : Offer) (m : Machine) : Machine :=
  { m with stage := .awaiting, pending := o.key?, operation := o.operation }

def rest (stage : Stage) (m : Machine) : Machine := { m with stage, operation := .inert }

def promote (m : Machine) : Machine := { m with active := m.pending, pending := none }

/-- The transitions: what is done, and the machine after it. Any other input is none of them. -/
def step (m : Machine) (i : Input) : Option (List Act × Machine) :=
  match m.stage, i with
  | .bootstrapping, .start o => some ([.attempt none o], m.await o)
  | .awaiting, .stop | .idle, .stop => some ([.cancel m.operation], m.rest .stopped)
  | .awaiting, .timer o | .idle, .timer o =>
      some ([.cancel m.operation, .attempt m.active o], m.await o)
  | .awaiting, .completed t outcome =>
      if t = m.operation then
        match outcome with
        | .ok _ => some ([], (m.rest .idle).promote)
        | .error e => some ([], m.rest (.fatal e))
      else none
  | _, _ => none

theorem step_stop {m : Machine} (h : m.stage = .awaiting ∨ m.stage = .idle) :
    m.step .stop = some ([.cancel m.operation], m.rest .stopped) := by
  rcases h with h | h <;> simp only [step, h]

theorem step_timer {m : Machine} (h : m.stage = .awaiting ∨ m.stage = .idle) (o : Offer) :
    m.step (.timer o) = some ([.cancel m.operation, .attempt m.active o], m.await o) := by
  rcases h with h | h <;> simp only [step, h]

theorem step_ok {m : Machine} (h : m.stage = .awaiting) :
    m.step (.completed m.operation (.ok ())) = some ([], (m.rest .idle).promote) := by
  simp only [step, h, if_true]

theorem step_error {m : Machine} (h : m.stage = .awaiting) (e : PublishError) :
    m.step (.completed m.operation (.error e)) = some ([], m.rest (.fatal e)) := by
  simp only [step, h, if_true]

def run (m : Machine) : List Input → Option (List Act × Machine)
  | [] => some ([], m)
  | i :: inputs => do
      let (acts, m) ← m.step i
      let (more, m) ← m.run inputs
      return (acts ++ more, m)

theorem run_singleton {m m' : Machine} {i : Input} {acts : List Act}
    (h : m.step i = some (acts, m')) : m.run [i] = some (acts, m') := by
  simp [run, h]

theorem run_append {m m' m'' : Machine} {inputs more : List Input} {acts later : List Act}
    (h : m.run inputs = some (acts, m')) (hmore : m'.run more = some (later, m'')) :
    m.run (inputs ++ more) = some (acts ++ later, m'') := by
  induction inputs generalizing m acts with
  | nil =>
      obtain ⟨rfl, rfl⟩ := Prod.mk.inj (Option.some.inj h)
      exact hmore
  | cons i inputs ih =>
      simp only [run, Option.bind_eq_bind, Option.bind_eq_some_iff] at h
      obtain ⟨⟨first, between⟩, hstep, ⟨rest, last⟩, hrest, hsome⟩ := h
      obtain ⟨rfl, rfl⟩ := Prod.mk.inj (Option.some.inj hsome)
      simp [run, hstep, ih hrest]

end Machine

def Bid.offer? (bid : Bid) : Option Machine.Offer :=
  match bid.draw, bid.operation with
  | .key k, some (.submitted number) => some (.submitted k number)
  | .failed _, some (.failed e) => some (.failed e)
  | _, _ => none

namespace Deed

def act? : Deed → Option Machine.Act
  | .attempt bid => bid.offer?.map (.attempt bid.signer)
  | .cancel t => some (.cancel t)
  | .observe _ _ => none

end Deed

/-- What a machine would do instead of these deeds, the oldest first. -/
def Deeds.acts (ds : Deeds) : List Machine.Act := ds.reverse.filterMap Deed.act?

theorem Deeds.acts_append (ds before : Deeds) : acts (ds ++ before) = before.acts ++ ds.acts := by
  simp [acts]

variable {ω : Type}

namespace Loop

def stage? (l : Loop ω) : Option Machine.Stage :=
  match l.escalated with
  | e :: _ => some (.fatal e)
  | [] => l.phase.stage?

/-- The machine that a loop is, if it is one. -/
def machine? (l : Loop ω) : Option Machine :=
  l.stage?.map fun stage => ⟨stage, l.slots.active, l.slots.pending, l.tracked⟩

/-- The input that a machine is given in a turn. -/
def input? (p : Plan ω) (l : Loop ω) : Turn ω → Option Machine.Input
  | .serve s _ =>
      if l.started then
        match l.next? s with
        | some .stop => some .stop
        | some .tick => ((l.cancel "superseded").bid p.world .scheduled).offer?.map .timer
        | some .retry => none
        | some (.outcome o) => some (.completed l.tracked o)
        | none => none
      else (l.bid p.world .bootstrap).offer?.map .start
  | _ => none

variable {p : Plan ω} {l l' : Loop ω}

theorem stage?_of_silent (h : l.escalated = []) : l.stage? = l.phase.stage? := by
  rw [stage?, h]

theorem machine?_eq_some {m : Machine} : l.machine? = some m ↔
    l.stage? = some m.stage ∧ l.slots.active = m.active ∧ l.slots.pending = m.pending ∧
      l.tracked = m.operation := by
  constructor
  · intro h
    obtain ⟨stage, hstage, rfl⟩ := Option.map_eq_some_iff.mp h
    exact ⟨hstage, rfl, rfl, rfl⟩
  · rintro ⟨hstage, hactive, hpending, hoperation⟩
    rw [machine?, hstage, hactive, hpending, hoperation]
    rfl

theorem Launch.offered {w : World ω} {trigger : Trigger} {bid : Bid}
    (h : Launch w trigger l bid l') (hsilent : l.escalated = [])
    (hcrash : (Deed.attempt bid).crashes = false) :
    ∃ o, bid.offer? = some o ∧ ∀ m : Machine, m.active = l.slots.active →
      l'.machine? = some (m.await o) := by
  cases h with
  | undrawn hdraw => cases hcrash
  | failed hdraw =>
      refine ⟨.failed _, rfl, fun m hactive => machine?_eq_some.mpr ?_⟩
      exact ⟨stage?_of_silent hsilent, hactive.symm, rfl, rfl⟩
  | crashed hdraw hpublish => cases hcrash
  | accepted hdraw hpublish =>
      refine ⟨.submitted _ _, rfl, fun m hactive => machine?_eq_some.mpr ?_⟩
      exact ⟨stage?_of_silent hsilent, hactive.symm, rfl, rfl⟩

theorem machine?_of_running {m : Machine} (hm : l.machine? = some m) (hposture : l.Posture)
    (hrunning : l.Running) (hsilent : l.escalated = []) (hphase : l.phase ≠ .backingOff) :
    m.stage = .awaiting ∨ m.stage = .idle := by
  have hstage := (machine?_eq_some.mp hm).1
  rw [stage?_of_silent hsilent] at hstage
  rcases (hposture.stance hrunning).phase_cases with ⟨hawaiting, -⟩ | ⟨hidle, -⟩ | ⟨hbacking, -⟩
  · rw [hawaiting] at hstage
    exact Or.inl (Option.some.inj hstage).symm
  · rw [hidle] at hstage
    exact Or.inr (Option.some.inj hstage).symm
  · exact absurd hbacking hphase

theorem machine?_of_awaiting {m : Machine} (hm : l.machine? = some m) (hsilent : l.escalated = [])
    (hphase : l.phase = .awaiting) : m.stage = .awaiting := by
  have hstage := (machine?_eq_some.mp hm).1
  rw [stage?_of_silent hsilent, hphase] at hstage
  exact (Option.some.inj hstage).symm

end Loop

namespace Chronicle

variable {p : Plan ω} {c d : Chronicle ω} {m : Machine}

/-- The machine does with these inputs what was done from one moment of a loop to another, and it
comes to be what the loop is then. -/
def Mirrors (m : Machine) (inputs : List Machine.Input) (c d : Chronicle ω) : Prop :=
  ∃ acts m', m.run inputs = some (acts, m') ∧ d.loop.machine? = some m' ∧
    d.deeds.acts = c.deeds.acts ++ acts

theorem mirrors_nil (hm : d.loop.machine? = some m) (hdeeds : d.deeds = c.deeds) :
    Mirrors m [] c d :=
  ⟨[], m, rfl, hm, by rw [hdeeds, List.append_nil]⟩

theorem mirrors_step {m' : Machine} {i : Machine.Input} {acts : List Machine.Act} {ds : Deeds}
    {l : Loop ω} (hstep : m.step i = some (acts, m')) (hm : l.machine? = some m')
    (hacts : ds.acts = acts) : Mirrors m [i] c ⟨l, ds ++ c.deeds⟩ :=
  ⟨acts, m', Machine.run_singleton hstep, hm, by rw [Deeds.acts_append, hacts]⟩

theorem Mirrors.trans {inputs more : List Machine.Input} {e : Chronicle ω}
    (h : Mirrors m inputs c d)
    (hmore : ∀ m', d.loop.machine? = some m' → Mirrors m' more d e) :
    Mirrors m (inputs ++ more) c e := by
  obtain ⟨acts, m', hrun, hm, hacts⟩ := h
  obtain ⟨later, m'', hrun', hm', hacts'⟩ := hmore m' hm
  refine ⟨acts ++ later, m'', Machine.run_append hrun hrun', hm', ?_⟩
  rw [hacts', hacts, List.append_assoc]

theorem mirrors_start (world : ω) (now : Instant)
    (hm : (Loop.new world).machine? = some m)
    (hcrash : (Deed.attempt ((Loop.new world).bid p.world .bootstrap)).crashes = false) :
    Mirrors m (((Loop.new world).bid p.world .bootstrap).offer?.map Machine.Input.start).toList
      (new world) ⟨(Loop.new world).start p now,
        [.attempt ((Loop.new world).bid p.world .bootstrap)] ++ (new world).deeds⟩ := by
  obtain rfl := Option.some.inj hm
  obtain ⟨launched, ticker, log, hlaunch, heq⟩ := Loop.start_spec p now (Loop.new world)
  obtain ⟨o, ho, hawaits⟩ := hlaunch.offered rfl hcrash
  rw [ho, heq]
  refine mirrors_step rfl (hawaits _ rfl) ?_
  simp only [Deeds.acts, List.reverse_singleton, List.filterMap_cons, Deed.act?, ho]
  rfl

theorem mirrors_stop (hm : c.loop.machine? = some m) (hsilent : c.loop.escalated = [])
    (hstage : m.stage = .awaiting ∨ m.stage = .idle) :
    Mirrors m [.stop] c ⟨c.loop.halt, [.cancel c.loop.tracked] ++ c.deeds⟩ := by
  obtain ⟨-, hactive, hpending, hoperation⟩ := Loop.machine?_eq_some.mp hm
  have hstopped : (c.loop.stopping.finish .stopped).stage? = some .stopped :=
    Loop.stage?_of_silent hsilent
  rw [Loop.halt_eq, hoperation]
  refine mirrors_step (Machine.step_stop hstage) ?_ rfl
  exact Loop.machine?_eq_some.mpr ⟨hstopped, hactive, hpending, rfl⟩

theorem mirrors_tick (now : Instant) (hm : c.loop.machine? = some m)
    (hsilent : c.loop.escalated = []) (hstage : m.stage = .awaiting ∨ m.stage = .idle)
    (hcrash : (Deed.attempt
      ((c.loop.cancel "superseded").bid p.world .scheduled)).crashes = false) :
    Mirrors m (((c.loop.cancel "superseded").bid p.world .scheduled).offer?.map
        Machine.Input.timer).toList c
      ⟨c.loop.rotate p now, c.loop.deeds p .tick ++ c.deeds⟩ := by
  obtain ⟨-, hactive, hpending, hoperation⟩ := Loop.machine?_eq_some.mp hm
  obtain ⟨o, ho, hawaits⟩ := (Loop.rotate_spec p now c.loop).offered hsilent hcrash
  have hsigner : ((c.loop.cancel "superseded").bid p.world .scheduled).signer = m.active := by
    rw [← hactive, Loop.cancel_eq]
    rfl
  rw [ho]
  refine mirrors_step (Machine.step_timer hstage o) (hawaits m hactive.symm) ?_
  simp [Deeds.acts, Loop.deeds, Deed.act?, ho, hsigner, hoperation]

theorem mirrors_ok (now : Instant) (hc : c.Sound) (hm : c.loop.machine? = some m)
    (hsilent : c.loop.escalated = []) (hphase : c.loop.phase = .awaiting)
    (hout : c.loop.outcome? = some (.ok ())) :
    Mirrors m [.completed c.loop.tracked (.ok ())] c
      ⟨c.loop.observing.confirm p now, [.observe c.loop.tracked (.ok ())] ++ c.deeds⟩ := by
  obtain ⟨-, -, hpending, hoperation⟩ := Loop.machine?_eq_some.mp hm
  have hstage := Loop.machine?_of_awaiting hm hsilent hphase
  have hidle : (c.loop.observing.confirm p now).stage? = some .idle :=
    Loop.stage?_of_silent hsilent
  have hpromote : c.loop.slots.promote = ⟨m.pending, none⟩ := by
    rcases Loop.outcome?_cases hout with ⟨e, -, he⟩ | ⟨n, s, htracked, -⟩
    · cases he
    · obtain ⟨-, -, k, hk, -⟩ := hc.accounted.latest n htracked
      rw [← hpending, Slots.promote, hk]
  rw [hoperation]
  refine mirrors_step (Machine.step_ok hstage) ?_ rfl
  exact Loop.machine?_eq_some.mpr
    ⟨hidle, congrArg Slots.active hpromote, congrArg Slots.pending hpromote, rfl⟩

theorem mirrors_error (now : Instant) {e : PublishError} (hm : c.loop.machine? = some m)
    (hsilent : c.loop.escalated = []) (hphase : c.loop.phase = .awaiting)
    (hfatal : (c.loop.observing.refuse p now e).escalated = [e]) :
    Mirrors m [.completed c.loop.tracked (.error e)] c
      ⟨c.loop.observing.refuse p now e, [.observe c.loop.tracked (.error e)] ++ c.deeds⟩ := by
  obtain ⟨-, hactive, hpending, hoperation⟩ := Loop.machine?_eq_some.mp hm
  have hstage := Loop.machine?_of_awaiting hm hsilent hphase
  obtain ⟨hslots, htracked, -, -⟩ := Loop.refuse_keeps p now e c.loop.observing
  have hend : (c.loop.observing.refuse p now e).stage? = some (.fatal e) := by
    rw [Loop.stage?, hfatal]
  rw [hoperation]
  refine mirrors_step (Machine.step_error hstage e) ?_ rfl
  rw [Loop.machine?_eq_some, hslots, htracked]
  exact ⟨hend, hactive, hpending, rfl⟩

/-- The inputs that a machine is given in these turns. -/
def serviced (p : Plan ω) (c : Chronicle ω) : List (Loop.Turn ω) → List Machine.Input
  | [] => []
  | t :: turns => (c.loop.input? p t).toList ++ (c.turn p t).serviced p turns

end Chronicle

end

end Keyring
