import Keyring.Proofs.Rotation.Succession
import Keyring.Proofs.Trial.Agreement

namespace Keyring

open Rotation

variable [Scheme]

/-- Whenever an attempt is made, each publication made before has given its outcome or has been
cancelled, as the key server can see. So at most one publication is live at any time, that of the
latest attempt, and a key server for trials finds none live when it gets another one. It has a
record of each publication it has accepted, with the key that it was made for. -/
theorem Trial.one_live_publication :
    (∀ {ω : Type} (p : Plan ω) (world : ω) (turns : List (Loop.Turn ω)),
      let c := Chronicle.run p world turns
      (∀ (later : Deeds) (bid : Bid) (before : Deeds),
        c.deeds = later ++ .attempt bid :: before →
        ∀ (n : Nat) (other : Bid), .attempt other ∈ before →
          other.operation = some (.submitted n) → before.Finished n ∧
            ∃ s, bid.earlier[n]? = some s ∧ (s.cancelled = true ∨ s.held = false)) ∧
      (∀ n m, c.deeds.Live n → c.deeds.Live m → n = m) ∧
      (∀ n, c.deeds.Live n →
        ∃ bid, c.deeds.lastBid = some bid ∧ bid.operation = some (.submitted n)) ∧
      ∀ (n : Nat) (s : Submission), c.loop.submissions[n]? = some s →
        (∃ bid, .attempt bid ∈ c.deeds ∧ bid.operation = some (.submitted n)) ∧
        (s.cancelled = false → s.held = true →
          c.deeds.Live n ∧ n + 1 = c.loop.submissions.length)) ∧
    ∀ {γ : Type} (u : Trial.Setup γ) (turns : List Trial.Turn),
      let c := u.run turns
      let records := c.loop.world.server.records
      (∀ r ∈ records, r.live = []) ∧ records.length = c.loop.submissions.length ∧
      ∀ (bid : Bid) (n : Nat), .attempt bid ∈ c.deeds → bid.operation = some (.submitted n) →
        ∃ r k, records[n]? = some r ∧ bid.draw = .key k ∧ r.key = k.id := by
  constructor
  · intro ω p world turns c
    have haccounted := (Chronicle.sound_run p world turns).accounted
    refine ⟨?_, ?_, ?_, ?_⟩
    · intro later bid before hds n other hother hoperation
      exact Chronicle.orderly_run p world turns later bid before hds n other hother hoperation
    · intro n m hn hm
      obtain ⟨bid, hbid, hoperation⟩ := haccounted.lastBid_of_live hn
      obtain ⟨other, hother, hoperation'⟩ := haccounted.lastBid_of_live hm
      obtain rfl : bid = other := Option.some.inj (hbid.symm.trans hother)
      rw [hoperation] at hoperation'
      exact Tracked.submitted.inj (Option.some.inj hoperation')
    · intro n hn
      exact haccounted.lastBid_of_live hn
    · intro n s hs
      refine ⟨haccounted.exists_bid hs, ?_⟩
      intro hcancelled hheld
      have htracked := haccounted.live n s hs hcancelled hheld
      exact ⟨haccounted.live_of_flags hs hcancelled hheld, (haccounted.latest n htracked).1⟩
  · intro γ u turns c records
    have hagree := u.agreement_run turns
    refine ⟨fun r hr => (hagree.faultless r hr).live, hagree.length, ?_⟩
    intro bid n hbid hoperation
    exact hagree.record_of_bid (u.sound_run turns).accounted hbid hoperation

end Keyring
