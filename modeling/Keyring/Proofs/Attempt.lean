import Keyring.Rotation.Loop

namespace Keyring

variable [Scheme] {ω : Type}

/-- The publication that an attempt leaves to be awaited. -/
def Tracked.submission (submissions : Submissions) : Tracked → Submission
  | .inert => .inert
  | .failed e => .failed e
  | .submitted n => submissions[n]?.getD .inert

/-- What a loop awaits is the outcome of its publication. -/
theorem Loop.outcome?_eq (l : Loop ω) :
    l.outcome? = (l.tracked.submission l.submissions).outcome? := by
  unfold outcome?
  cases l.tracked with
  | inert => rfl
  | failed e => rfl
  | submitted n =>
      show l.submissions[n]?.bind _ = (l.submissions[n]?.getD _).outcome?
      cases l.submissions[n]? <;> rfl

/-- The same source of keys and the same key server, with a record of all keys that the server was
called with and of those that vouch for them. -/
def World.recorded (w : World ω) : World (ω × List (Jwk × SigningKey)) where
  draw s := ((w.draw s.1).1, (w.draw s.1).2, s.2)
  publish jwk signer submissions s :=
    let (reply, world) := w.publish jwk signer submissions s.1
    (reply, world, s.2 ++ [(jwk, signer)])
  escalate := w.escalate

def Draw.key? : Draw → Option SigningKey
  | .key k => some k
  | _ => none

namespace Attempt

variable (w : World ω) (signer : Option SigningKey) (slots : Slots) (submissions : Submissions)
  (world : ω)

/-- What the key server is called with. -/
def offered : List (Jwk × SigningKey) :=
  ((w.draw world).1.key?.map fun k => (k.jwk, signer.getD k)).toList

theorem make_recorded (record : List (Jwk × SigningKey)) :
    let a := make w signer slots submissions world
    make w.recorded signer slots submissions (world, record) =
      ⟨a.slots, a.submissions, (a.world, record ++ offered w signer world), a.result,
        a.events⟩ := by
  unfold make offered
  rcases hdraw : w.draw world with ⟨draw, between⟩
  cases draw with
  | crashed text => simp [World.recorded, hdraw, Draw.key?]
  | failed e => simp [World.recorded, hdraw, Draw.key?]
  | key k =>
      rcases hpublish : w.publish k.jwk (signer.getD k) submissions between with ⟨reply, world⟩
      cases reply <;> simp [World.recorded, hdraw, hpublish, Draw.key?]

theorem slots_make :
    (make w signer slots submissions world).slots =
      match (w.draw world).1 with
      | .key k => slots.propose k
      | .failed _ => slots.withdraw
      | .crashed _ => slots := by
  unfold make
  rcases hdraw : w.draw world with ⟨draw, between⟩
  cases draw with
  | crashed text => rfl
  | failed e => rfl
  | key k =>
      dsimp only
      split <;> rfl

theorem active_make :
    (make w signer slots submissions world).slots.active = slots.active := by
  rw [slots_make]
  split <;> rfl

theorem result_make_of_failed {e : KeyError} (h : (w.draw world).1 = .failed e) :
    (make w signer slots submissions world).result = .ok (.failed (.keyGeneration e.message)) := by
  unfold make
  rcases hdraw : w.draw world with ⟨draw, between⟩
  rw [hdraw] at h
  cases h
  rfl

end Attempt

end Keyring
