import Keyring.Proofs.Trial.Agreement
import Keyring.Rotation.View

namespace Keyring

open Rotation

namespace Trial

/-- In a run of a trial the chain of trust is never broken. Every key is vouched for by a key that
the server has accepted or by itself, with a signature that holds; who vouches is the key of the
latest publication that had succeeded as far as the loop had observed, and the new key itself only
before the first success. So the server has accepted the key in use. -/
theorem trust_chain [Scheme] {γ : Type} (u : Setup γ) (turns : List Turn) :
    let c := u.run turns
    let server := c.loop.world.server
    (∀ (n : Nat) (r : Server.Record), server.records[n]? = some r →
      r.trusted = true ∧ (Scheme.Sound → r.valid = true) ∧ r.Vouched c.deeds server.records n) ∧
    ∀ k, c.loop.activeKey = .ok k → server.isTrusted k.id = true := by
  intro c server
  have h : Agreement c.deeds c.loop.slots c.loop.submissions server := u.agreement_run turns
  constructor
  · intro n r hr
    have hfaultless := h.faultless r (List.mem_of_getElem? hr)
    exact ⟨hfaultless.trusted, hfaultless.valid, h.vouched n r hr⟩
  · intro k hk
    exact h.active k (Loop.activeKey_eq_ok_iff.mp hk)

def Setup.heldFirst [Scheme] : Setup Generator where
  settings := .new "issuer" "endpoint"
  draw := Generator.draw
  crashing := []
  escalate := fun _ => .returns
  startedAt := 0
  generator := .numbered 1
  script := [.hold]
  otherwise := .succeed

/-- It succeeds, but a tick supersedes it before the loop looks. The second one succeeds, and a
third one follows. -/
def supersededTurns : List Turn :=
  [.serve ⟨false, false, false⟩ 0, .complete 0 (.ok ()), .serve ⟨false, true, false⟩ 1,
    .serve ⟨false, false, false⟩ 1, .serve ⟨false, true, false⟩ 2]

theorem trust_chain_superseded :
    letI : Scheme := .plain
    let server := (Setup.heldFirst.run supersededTurns).loop.world.server
    server.records.length = 3 ∧ ∀ r ∈ server.records, r.trusted = true ∧ r.valid = true := by
  have h := (@trust_chain .plain _ (@Setup.heldFirst .plain) supersededTurns).1
  constructor
  · decide +kernel
  · intro r hr
    obtain ⟨n, hn⟩ := List.getElem?_of_mem hr
    obtain ⟨htrusted, hvalid, -⟩ := h n r hn
    exact ⟨htrusted, hvalid Scheme.sound_plain⟩

end Trial

end Keyring
