import Keyring.Proofs.Rotation.Run

namespace Keyring

open Rotation

variable [Scheme] {ω : Type}

namespace Loop

theorem statuses_suffix_launch {w : World ω} {trigger : Trigger} {l l' : Loop ω} {bid : Bid}
    (h : Launch w trigger l bid l') : l.statuses <:+ l'.statuses := by
  cases h with
  | undrawn hdraw => exact List.suffix_rfl
  | failed hdraw => exact List.suffix_cons _ _
  | crashed hdraw hpublish => exact List.suffix_rfl
  | accepted hdraw hpublish => exact List.suffix_cons _ _

theorem statuses_suffix_refuse (p : Plan ω) (now : Instant) (e : PublishError) (l : Loop ω) :
    l.statuses <:+ (l.refuse p now e).statuses := by
  simp only [refuse]
  split
  · exact List.suffix_cons _ _
  · simp only [escalate]
    split
    · exact List.suffix_cons _ _
    · exact List.suffix_rfl
    · exact List.suffix_rfl

theorem statuses_suffix_react (p : Plan ω) (now : Instant) (o : Occurrence) (l : Loop ω) :
    l.statuses <:+ (l.react p now o).statuses := by
  cases o with
  | stop =>
      simp only [react, halt, cancel_eq]
      exact List.suffix_cons _ _
  | tick =>
      have hsuffix := statuses_suffix_launch (rotate_spec p now l)
      exact hsuffix
  | retry =>
      have hsuffix := statuses_suffix_launch (retry_spec p l)
      exact hsuffix
  | outcome o =>
      cases o with
      | ok _ =>
          simp only [react, settle_eq]
          exact List.suffix_cons _ _
      | error e =>
          have hsuffix := statuses_suffix_refuse p now e l.settle
          rw [show l.settle.statuses = l.statuses by rw [settle_eq]] at hsuffix
          exact hsuffix

theorem started_iff {l : Loop ω} : l.started = true ↔ l.statuses ≠ [] := by
  simp [started]

theorem started_react (p : Plan ω) (now : Instant) (o : Occurrence) {l : Loop ω}
    (h : l.started = true) : (l.react p now o).started = true := by
  rw [started_iff] at h ⊢
  intro hnil
  have hsuffix := statuses_suffix_react p now o l
  rw [hnil] at hsuffix
  exact h (List.suffix_nil.mp hsuffix)

theorem Launch.started {w : World ω} {trigger : Trigger} {l l' : Loop ω} {bid : Bid}
    (h : Launch w trigger l bid l') (hstarted : l.started = true) : l'.started = true := by
  rw [started_iff] at hstarted ⊢
  intro hnil
  have hsuffix := statuses_suffix_launch h
  rw [hnil] at hsuffix
  exact hstarted (List.suffix_nil.mp hsuffix)

theorem started_start (p : Plan ω) (now : Instant) (l : Loop ω) :
    (l.start p now).started = true := by
  obtain ⟨launched, ticker, log, hlaunch, heq⟩ := start_spec p now l
  have hlaunched : launched.started = true := hlaunch.started rfl
  rw [heq]
  exact hlaunched

end Loop

namespace Chronicle

def serveAll (p : Plan ω) (c : Chronicle ω) (servings : List (Signals × Instant)) : Chronicle ω :=
  servings.foldl (fun c s => c.serve p s.1 s.2) c

theorem serveAll_append (p : Plan ω) (c : Chronicle ω) (first second : List (Signals × Instant)) :
    c.serveAll p (first ++ second) = (c.serveAll p first).serveAll p second :=
  List.foldl_append

theorem exists_serveAll_drain (p : Plan ω) (stop : Bool) (now : Instant) (l : Loop ω)
    (hstarted : l.started = true) (ds : Deeds) :
    ∃ servings, (∀ s ∈ servings, s.1.stop = stop) ∧
      ((⟨l, ds⟩ : Chronicle ω).serveAll p servings).loop = l.drain p stop now := by
  induction l using Loop.drain.induct p stop now generalizing ds with
  | case1 l hnext =>
      refine ⟨[], nofun, ?_⟩
      rw [Loop.drain]
      split
      · rfl
      · rename_i o ho
        rw [hnext] at ho
        cases ho
  | case2 l o hnext ih =>
      obtain ⟨servings, hstop, hservings⟩ :=
        ih (Loop.started_react p now o hstarted) (l.deeds p o ++ ds)
      refine ⟨(l.signalsAt stop now, now) :: servings, List.forall_mem_cons.mpr ⟨rfl, hstop⟩, ?_⟩
      have hserve : (⟨l, ds⟩ : Chronicle ω).serve p (l.signalsAt stop now) now =
          ⟨l.react p now o, l.deeds p o ++ ds⟩ := by
        simp only [serve, hstarted, if_true, hnext]
      rw [Loop.drain]
      split
      · rename_i hnone
        rw [hnext] at hnone
        cases hnone
      · rename_i o' ho'
        rw [hnext] at ho'
        cases ho'
        rw [← hservings, ← hserve]
        rfl

/-- A loop that is served at a moment, whether it has started or not, is served several times. -/
theorem exists_serveAll_serve (p : Plan ω) (stop : Bool) (now : Instant) (c : Chronicle ω) :
    ∃ servings, (∀ s ∈ servings, s.1.stop = stop) ∧
      (c.serveAll p servings).loop = c.loop.serve p stop now := by
  unfold Loop.serve
  cases hstarted : c.loop.started with
  | true => exact exists_serveAll_drain p stop now c.loop hstarted c.deeds
  | false =>
      obtain ⟨servings, hstop, hservings⟩ := exists_serveAll_drain p stop now
        (c.loop.start p now) (Loop.started_start p now c.loop)
        (.attempt (c.loop.bid p.world .bootstrap) :: c.deeds)
      refine ⟨(⟨stop, false, false⟩, now) :: servings, List.forall_mem_cons.mpr ⟨rfl, hstop⟩, ?_⟩
      have hserve : c.serve p ⟨stop, false, false⟩ now =
          ⟨c.loop.start p now, .attempt (c.loop.bid p.world .bootstrap) :: c.deeds⟩ := by
        simp [serve, hstarted]
      simp only [Bool.false_eq_true, if_false]
      rw [← hservings, ← hserve]
      rfl

theorem exists_serveAll_advance (p : Plan ω) (stop : Bool) (done : Loop ω → Bool) (last : Nat)
    (clock : Clocked ω) {c : Chronicle ω} (hc : c.loop = clock.loop) :
    ∃ servings, (∀ s ∈ servings, s.1.stop = stop) ∧
      (c.serveAll p servings).loop = (clock.advance p stop done last).loop := by
  have hserved : ∀ {clock : Clocked ω} {c : Chronicle ω}, c.loop = clock.loop →
      ∃ servings, (∀ s ∈ servings, s.1.stop = stop) ∧
        (c.serveAll p servings).loop = (clock.serve p stop).loop := by
    intro clock c hc
    obtain ⟨servings, hstop, hservings⟩ := exists_serveAll_serve p stop clock.instant c
    exact ⟨servings, hstop, by rw [hservings, hc]; rfl⟩
  fun_induction Clocked.advance p stop done last clock generalizing c with
  | case3 clock hlast served hdone wake hwake hlater =>
      rename_i ih
      obtain ⟨first, hstop, hfirst⟩ := hserved hc
      obtain ⟨second, hstop', hsecond⟩ := ih hfirst
      refine ⟨first ++ second, List.forall_mem_append.mpr ⟨hstop, hstop'⟩, ?_⟩
      rw [serveAll_append, hsecond]
  | case5 clock hlast => exact ⟨[], nofun, hc⟩
  -- The clock ends here, after one more serving.
  | _ => exact hserved hc

end Chronicle

end Keyring
