import Keyring.Proofs.Rotation.Run
import Keyring.Rotation.View

namespace Keyring

open Rotation

variable [Scheme] {ω : Type}

namespace Deeds

theorem Carries.suffix {ds es : Deeds} {n : Nat} {k : SigningKey} (h : ds.Carries n k)
    (hsuffix : ds <:+ es) : es.Carries n k := by
  obtain ⟨bid, hmem, hoperation, hdraw⟩ := h
  exact ⟨bid, hsuffix.subset hmem, hoperation, hdraw⟩

theorem lastSuccess_ne_none_of_suffix {ds es : Deeds} (hsuffix : ds <:+ es)
    (h : ds.lastSuccess ≠ none) : es.lastSuccess ≠ none := by
  obtain ⟨later, rfl⟩ := hsuffix
  intro hnone
  apply h
  simp only [lastSuccess, List.findSome?_eq_none_iff, List.mem_append] at hnone ⊢
  exact fun d hd => hnone d (Or.inr hd)

end Deeds

namespace Accounted

variable {ds es : Deeds} {slots slots' : Slots} {tracked tracked' : Tracked}
  {submissions submissions' : Submissions}

theorem active_eq_of_lastSuccess_eq (h : Accounted ds slots tracked submissions)
    (h' : Accounted es slots' tracked' submissions') (hsuffix : ds <:+ es)
    (hlast : es.lastSuccess = ds.lastSuccess) : slots'.active = slots.active := by
  cases ht : ds.lastSuccess with
  | none => rw [h.idle ht, h'.idle (hlast.trans ht)]
  | some t =>
      obtain ⟨n, k, rfl, hcarries, hactive, -⟩ := h.active t ht
      obtain ⟨m, k', hm, hcarries', hactive', -⟩ := h'.active _ (hlast.trans ht)
      obtain rfl := Tracked.submitted.inj hm
      rw [hactive, hactive', h'.carries_unique (hcarries.suffix hsuffix) hcarries']

theorem not_succeeded (h : Accounted ds slots tracked submissions) {t : Tracked}
    (ht : .cancel t ∈ ds ∨ ∃ e, .observe t (.error e) ∈ ds) : .observe t (.ok ()) ∉ ds := by
  intro hok
  obtain ⟨n, rfl⟩ := h.success t hok
  rcases ht with hcancel | ⟨e, herror⟩
  · exact h.not_observed_of_cancelled hcancel _ hok
  · cases h.outcome_unique hok herror

end Accounted

namespace Chronicle

theorem lastSuccess_turn (p : Plan ω) (c : Chronicle ω) (t : Loop.Turn ω) :
    (c.turn p t).deeds.lastSuccess = c.deeds.lastSuccess ∨
      ∃ tracked, (c.turn p t).deeds = .observe tracked (.ok ()) :: c.deeds := by
  cases t with
  | serve s now =>
      simp only [turn]
      rcases serve_cases p s now c with ⟨-, heq⟩ | ⟨-, heq | ⟨o, -, heq⟩⟩
      · rw [heq]
        exact Or.inl rfl
      · rw [heq]
        exact Or.inl rfl
      · rw [heq]
        cases o with
        | stop => exact Or.inl rfl
        | tick => exact Or.inl rfl
        | retry => exact Or.inl rfl
        | outcome o =>
            cases o with
            | ok _ => exact Or.inr ⟨c.loop.tracked, rfl⟩
            | error e => exact Or.inl rfl
  | report i outcome => exact Or.inl rfl
  | abandon i => exact Or.inl rfl
  | elapse world => exact Or.inl rfl

/-- The key in use is always that of the publication that succeeded last, as far as the loop has
observed, and there is none before the first success. Once there is a key in use there always is
one. A publication that was cancelled, or that failed, never brings its key into use: only a success
that the loop observes changes the key in use. -/
theorem activeKey_run (p : Plan ω) (world : ω) (turns : List (Loop.Turn ω)) :
    let c := run p world turns
    (c.deeds.lastSuccess = none → c.loop.activeKey = .error .noActiveKey) ∧
    (∀ t, c.deeds.lastSuccess = some t → ∃ bid k, .attempt bid ∈ c.deeds ∧
      bid.operation = some t ∧
      (∀ other, .attempt other ∈ c.deeds → other.operation = some t → other = bid) ∧
      bid.draw = .key k ∧ c.loop.activeKey = .ok k) ∧
    (∀ more, c.loop.activeKey ≠ .error .noActiveKey →
      (c.extend p more).loop.activeKey ≠ .error .noActiveKey) ∧
    (∀ t, (.cancel t ∈ c.deeds ∨ ∃ e, .observe t (.error e) ∈ c.deeds) →
      ∀ more, .observe t (.ok ()) ∉ (c.extend p more).deeds) ∧
    ∀ turn, (c.turn p turn).loop.slots.active ≠ c.loop.slots.active →
      ∃ t, (c.turn p turn).deeds = .observe t (.ok ()) :: c.deeds := by
  intro c
  have hc : c.Sound := sound_run p world turns
  refine ⟨?_, ?_, ?_, ?_, ?_⟩
  · intro hnone
    exact Loop.activeKey_eq_error_iff.mpr (hc.accounted.idle hnone)
  · intro t ht
    obtain ⟨n, k, rfl, ⟨bid, hbid, hoperation, hdraw⟩, hactive, -⟩ := hc.accounted.active t ht
    refine ⟨bid, k, hbid, hoperation, ?_, hdraw, Loop.activeKey_eq_ok_iff.mpr hactive⟩
    intro other hother hoperation'
    exact hc.accounted.bid_unique hbid hoperation hother hoperation'
  · intro more hkey
    have hsuccess : c.deeds.lastSuccess ≠ none := by
      intro hnone
      exact hkey (Loop.activeKey_eq_error_iff.mpr (hc.accounted.idle hnone))
    have hlater := Deeds.lastSuccess_ne_none_of_suffix (deeds_suffix_extend p c more) hsuccess
    obtain ⟨t, ht⟩ := Option.ne_none_iff_exists'.mp hlater
    obtain ⟨n, k, -, -, hactive, -⟩ := (sound_extend p hc more).accounted.active t ht
    rw [Loop.activeKey_eq_ok_iff.mpr hactive]
    simp
  · intro t ht more
    have hsuffix := deeds_suffix_extend p c more
    apply (sound_extend p hc more).accounted.not_succeeded
    rcases ht with hcancel | ⟨e, herror⟩
    · exact Or.inl (hsuffix.subset hcancel)
    · exact Or.inr ⟨e, hsuffix.subset herror⟩
  · intro turn hne
    rcases lastSuccess_turn p c turn with hlast | hsuccess
    · exact absurd (hc.accounted.active_eq_of_lastSuccess_eq (sound_turn p turn hc).accounted
        (deeds_suffix_turn p c turn) hlast) hne
    · exact hsuccess

end Chronicle

end Keyring
