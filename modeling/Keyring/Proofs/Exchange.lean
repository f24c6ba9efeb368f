import Keyring.Exchange
import Keyring.Proofs.Submission
import Mathlib.Data.List.Induction

namespace Keyring

def Move.report? : Move → Option Outcome
  | .complete outcome => some outcome
  | .abandon => some (.error .abandoned)
  | _ => none

def Answer.ofOutcome? : Option Outcome → Answer
  | some o => .outcome o
  | none => .pending

def Answer.outcome? : Answer → Option Outcome
  | .outcome o => some o
  | _ => none

namespace Exchange

/-- The awaiting side went away. -/
def Released (moves : List Move) : Prop := .release ∈ moves

/-- The awaiting side cancelled, before it went away. -/
def Cancelled (moves : List Move) : Prop := .cancel ∈ moves.takeWhile (· ≠ .release)

def reported? (moves : List Move) : Option Outcome := moves.findSome? Move.report?

def returned (moves : List Move) : List Outcome := (new.answers moves).filterMap Answer.outcome?

def outcomes (x : Exchange) (moves : List Move) : List Outcome :=
  (x.answers moves).filterMap Answer.outcome?

theorem run_concat (x : Exchange) (moves : List Move) (m : Move) :
    x.run (moves ++ [m]) = ((x.run moves).step m).2 := by
  simp [run]

theorem answers_concat (x : Exchange) (moves : List Move) (m : Move) :
    x.answers (moves ++ [m]) = x.answers moves ++ [(x.run moves).answer m] := by
  induction moves generalizing x with
  | nil => rfl
  | cons n moves ih =>
      simp only [List.cons_append, answers, ih]
      rfl

theorem outcomes_concat (x : Exchange) (moves : List Move) (m : Move) :
    x.outcomes (moves ++ [m]) = x.outcomes moves ++ ((x.run moves).answer m).outcome?.toList := by
  rw [outcomes, answers_concat, List.filterMap_append]
  cases h : ((x.run moves).answer m).outcome? with
  | none => simp [h, outcomes]
  | some o => simp [h, outcomes]

section History

variable {moves : List Move} {m : Move}

theorem released_concat : Released (moves ++ [m]) ↔ Released moves ∨ m = .release := by
  simp [Released, eq_comm]

theorem cancelled_concat :
    Cancelled (moves ++ [m]) ↔ Cancelled moves ∨ ¬ Released moves ∧ m = .cancel := by
  unfold Cancelled Released
  induction moves with
  | nil => cases m <;> simp
  | cons n moves ih =>
      by_cases hn : n = .release
      · simp [hn]
      · simp only [List.cons_append, List.takeWhile_cons, hn, ne_eq, not_false_eq_true,
          decide_true, if_true, List.mem_cons, ih, Ne.symm hn, false_or]
        rw [or_assoc]

theorem reported?_concat : reported? (moves ++ [m]) = (reported? moves).or m.report? := by
  rw [reported?, List.findSome?_append]
  simp [reported?]

theorem returned_concat : returned (moves ++ [m]) =
    returned moves ++ ((new.run moves).answer m).outcome?.toList :=
  outcomes_concat new moves m

theorem returned_concat_of_none (h : ((new.run moves).answer m).outcome? = none) :
    returned (moves ++ [m]) = returned moves := by
  simp [returned_concat, h]

theorem cancelled_concat_of_ne (h : m ≠ .cancel) : Cancelled (moves ++ [m]) ↔ Cancelled moves := by
  simp [cancelled_concat, h]

theorem released_concat_of_ne (h : m ≠ .release) : Released (moves ++ [m]) ↔ Released moves := by
  simp [released_concat, h]

theorem reported?_concat_of_none (h : m.report? = none) :
    reported? (moves ++ [m]) = reported? moves := by
  rw [reported?_concat, h, Option.or_none]

end History

/-- What a move does to a submission, together with its answer. -/
inductive Effect (s : Submission) : Move → Answer → Submission → Prop
  | cancel (hheld : s.held = true) : Effect s .cancel .done s.cancel
  | release (hheld : s.held = true) : Effect s .release .done s.release
  | take {m : Move} {o : Outcome} (hcancel : m ≠ .cancel) (hrelease : m ≠ .release)
      (hreport : m.report? = none) (hout : s.outcome? = some o) :
      Effect s m (.outcome o) { s with report := .spent }
  | report {m : Move} {o : Outcome} {a : Answer} (hreport : m.report? = some o)
      (hwaiting : s.report = .waiting) (ha : a.outcome? = none) : Effect s m a (s.complete o).2
  | none {m : Move} {a : Answer} (hcancel : m = .cancel → s.held = false)
      (hrelease : m = .release → s.held = false)
      (hreport : m.report? = none ∨ s.report ≠ .waiting) (ha : a.outcome? = none) : Effect s m a s

theorem ask_waiting (x : Exchange) : (∃ o, x.submission.outcome? = some o ∧
      x.ask .waiting = (.outcome o, ⟨{ x.submission with report := .spent }, none⟩)) ∨
    x.submission.outcome? = none ∧ ∃ c, x.ask .waiting = (.pending, ⟨x.submission, some c⟩) ∧
      (c = .stuck → x.submission.cancelled = true ∨ x.submission.report = .spent) := by
  cases hout : x.submission.outcome? with
  | some o => exact Or.inl ⟨o, rfl, by simp [ask, Submission.poll, hout]⟩
  | none =>
      refine Or.inr ⟨rfl, if x.submission.cancelled || !x.submission.awaitsReport then .stuck
        else .waiting, by simp [ask, Submission.poll, hout], ?_⟩
      intro hstuck
      cases hcancelled : x.submission.cancelled with
      | true => exact Or.inl rfl
      | false =>
          cases hreport : x.submission.report with
          | waiting => simp [hcancelled, hreport, Submission.awaitsReport] at hstuck
          | ready o => simp [Submission.outcome?, hcancelled, hreport] at hout
          | spent => exact Or.inr rfl

theorem effect_ask (x : Exchange) {m : Move} (hcancel : m ≠ .cancel) (hrelease : m ≠ .release)
    (hreport : m.report? = none) :
    Effect x.submission m (x.ask .waiting).1 (x.ask .waiting).2.submission := by
  rcases ask_waiting x with ⟨o, hout, heq⟩ | ⟨-, c, heq, -⟩
  · rw [heq]
    exact .take hcancel hrelease hreport hout
  · rw [heq]
    exact .none (fun h => absurd h hcancel) (fun h => absurd h hrelease) (Or.inl hreport) rfl

theorem effect_byAwaiting {x : Exchange} {m : Move} {result : Answer × Exchange}
    (hreport : m.report? = none)
    (h : x.submission.held = true → Effect x.submission m result.1 result.2.submission) :
    Effect x.submission m (x.byAwaiting result).1 (x.byAwaiting result).2.submission := by
  unfold byAwaiting
  split
  · rename_i hheld
    exact h hheld
  · rename_i hheld
    have hgone : x.submission.held = false := Bool.eq_false_iff.mpr hheld
    exact .none (fun _ => hgone) (fun _ => hgone) (Or.inl hreport) rfl

theorem effect_byReporting {x : Exchange} {m : Move} {result : Answer × Exchange}
    (hcancel : m ≠ .cancel) (hrelease : m ≠ .release)
    (h : x.submission.report = .waiting → Effect x.submission m result.1 result.2.submission) :
    Effect x.submission m (x.byReporting result).1 (x.byReporting result).2.submission := by
  unfold byReporting
  split
  · rename_i hwaiting
    exact h (by simpa [Submission.awaitsReport] using hwaiting)
  · rename_i hwaiting
    refine .none (fun h => absurd h hcancel) (fun h => absurd h hrelease) (Or.inr ?_) rfl
    simpa [Submission.awaitsReport] using hwaiting

theorem effect_step (x : Exchange) (m : Move) :
    Effect x.submission m (x.answer m) (x.step m).2.submission := by
  cases m with
  | cancel => exact effect_byAwaiting rfl .cancel
  | askCancelled =>
      exact effect_byAwaiting rfl fun _ => .none nofun nofun (Or.inl rfl) rfl
  | poll => exact effect_byAwaiting rfl fun _ => x.effect_ask nofun nofun rfl
  | await => exact effect_byAwaiting rfl fun _ => x.effect_ask nofun nofun rfl
  | resume =>
      unfold answer step
      cases hcall : x.call with
      | none => exact .none nofun nofun (Or.inl rfl) rfl
      | some c =>
          cases c with
          | waiting => exact x.effect_ask nofun nofun rfl
          | stuck => exact .none nofun nofun (Or.inl rfl) rfl
  | giveUp => exact effect_byAwaiting rfl fun _ => .none nofun nofun (Or.inl rfl) rfl
  | release => exact effect_byAwaiting rfl .release
  | complete o =>
      exact effect_byReporting nofun nofun fun hwaiting => .report rfl hwaiting rfl
  | abandon => exact effect_byReporting nofun nofun fun hwaiting => .report rfl hwaiting rfl
  | seeCancelled =>
      exact effect_byReporting nofun nofun fun _ => .none nofun nofun (Or.inl rfl) rfl

/-- How a submission follows from the moves that were made on a fresh pair of sides. -/
structure Accords (moves : List Move) (s : Submission) : Prop where
  cancelled : s.cancelled = true ↔ Cancelled moves
  held : s.held = false ↔ Released moves
  waiting : s.report = .waiting ↔ reported? moves = none
  ready : ∀ o, reported? moves = some o → ¬ Cancelled moves → ¬ Released moves →
    returned moves = [] → s.report = .ready o
  spent : returned moves ≠ [] → s.report = .spent
  once : (returned moves).length ≤ 1

theorem accords_nil : Accords [] .new where
  cancelled := by simp [Submission.new, Cancelled]
  held := by simp [Submission.new, Released]
  waiting := by simp [Submission.new, reported?]
  ready o h := by cases h
  spent h := absurd rfl h
  once := Nat.zero_le 1

namespace Accords

variable {moves : List Move} {m : Move} {s t : Submission}

theorem held_iff (h : Accords moves s) : s.held = true ↔ ¬ Released moves := by
  rw [← h.held]
  simp

theorem returned_eq_nil (h : Accords moves s) (hne : s.report ≠ .spent) : returned moves = [] := by
  cases hreturned : returned moves with
  | nil => rfl
  | cons o os => exact absurd (h.spent (by simp [hreturned])) hne

theorem cancel (h : Accords moves s) (hheld : s.held = true)
    (ha : ((new.run moves).answer .cancel).outcome? = none) :
    Accords (moves ++ [.cancel]) s.cancel := by
  have hcancelled : Cancelled (moves ++ [.cancel]) :=
    cancelled_concat.mpr (Or.inr ⟨h.held_iff.mp hheld, rfl⟩)
  have hreturned := returned_concat_of_none ha
  refine ⟨?_, ?_, ?_, ?_, ?_, ?_⟩
  · exact iff_of_true rfl hcancelled
  · rw [released_concat_of_ne (m := .cancel) nofun]
    exact h.held
  · rw [reported?_concat_of_none rfl]
    exact h.waiting
  · intro o _ hlive
    exact absurd hcancelled hlive
  · rw [hreturned]
    exact h.spent
  · rw [hreturned]
    exact h.once

theorem release (h : Accords moves s) (ha : ((new.run moves).answer .release).outcome? = none) :
    Accords (moves ++ [.release]) s.release := by
  have hreleased : Released (moves ++ [.release]) := released_concat.mpr (Or.inr rfl)
  have hreturned := returned_concat_of_none ha
  refine ⟨?_, ?_, ?_, ?_, ?_, ?_⟩
  · rw [cancelled_concat_of_ne (m := .release) nofun]
    exact h.cancelled
  · exact iff_of_true rfl hreleased
  · rw [reported?_concat_of_none rfl]
    exact h.waiting
  · intro o _ _ hheld
    exact absurd hreleased hheld
  · rw [hreturned]
    exact h.spent
  · rw [hreturned]
    exact h.once

theorem take (h : Accords moves s) (hcancel : m ≠ .cancel) (hrelease : m ≠ .release)
    (hreport : m.report? = none) {o : Outcome} (hout : s.outcome? = some o)
    (ha : (new.run moves).answer m = .outcome o) :
    Accords (moves ++ [m]) { s with report := .spent } := by
  -- The outcome is still there, so no call has returned before.
  obtain ⟨-, hready⟩ := Submission.of_outcome? hout
  have hfirst : returned moves = [] := h.returned_eq_nil (by simp [hready])
  have hreturned : returned (moves ++ [m]) = [o] := by
    rw [returned_concat, hfirst, ha]
    rfl
  refine ⟨?_, ?_, ?_, ?_, ?_, ?_⟩
  · rw [cancelled_concat_of_ne hcancel]
    exact h.cancelled
  · rw [released_concat_of_ne hrelease]
    exact h.held
  · rw [reported?_concat_of_none hreport, ← h.waiting, hready]
    exact iff_of_false nofun nofun
  · intro o' _ _ _ hnone
    rw [hreturned] at hnone
    cases hnone
  · intro _
    rfl
  · rw [hreturned]
    exact Nat.le_refl 1

theorem report (h : Accords moves s) {o : Outcome} (hreport : m.report? = some o)
    (hwaiting : s.report = .waiting) (ha : ((new.run moves).answer m).outcome? = none) :
    Accords (moves ++ [m]) (s.complete o).2 := by
  have hcancel : m ≠ .cancel := by
    rintro rfl
    cases hreport
  have hrelease : m ≠ .release := by
    rintro rfl
    cases hreport
  have hreturned := returned_concat_of_none ha
  have hnone : returned moves = [] := h.returned_eq_nil (by simp [hwaiting])
  have hreported : reported? (moves ++ [m]) = some o := by
    rw [reported?_concat, h.waiting.mp hwaiting, hreport]
    rfl
  have hkeeps := Submission.reported_complete o s
  refine ⟨?_, ?_, ?_, ?_, ?_, ?_⟩
  · rw [cancelled_concat_of_ne hcancel, hkeeps.cancelled]
    exact h.cancelled
  · rw [released_concat_of_ne hrelease, hkeeps.held]
    exact h.held
  · rw [hreported]
    exact iff_of_false (Submission.report_complete_ne_waiting o s) nofun
  · intro o' ho' hlive hthere _
    obtain rfl : o = o' := Option.some.inj (hreported.symm.trans ho')
    rw [cancelled_concat_of_ne hcancel, ← h.cancelled] at hlive
    rw [released_concat_of_ne hrelease, ← h.held] at hthere
    have haccepts : s.accepts = true := by
      simpa [Submission.accepts, hwaiting] using And.intro hlive hthere
    simp [Submission.complete, haccepts]
  · rw [hreturned]
    exact fun hne => absurd hnone hne
  · rw [hreturned]
    exact h.once

theorem skip (h : Accords moves s) (hcancel : m = .cancel → s.held = false)
    (hrelease : m = .release → s.held = false)
    (hreport : m.report? = none ∨ s.report ≠ .waiting)
    (ha : ((new.run moves).answer m).outcome? = none) : Accords (moves ++ [m]) s := by
  have hreturned := returned_concat_of_none ha
  have hreported : reported? (moves ++ [m]) = reported? moves := by
    rcases hreport with hnone | hne
    · exact reported?_concat_of_none hnone
    · rw [Ne, h.waiting] at hne
      obtain ⟨o, ho⟩ := Option.ne_none_iff_exists'.mp hne
      rw [reported?_concat, ho]
      rfl
  -- Whoever cancels or goes away to no effect has gone away before.
  have hcancelled : Cancelled (moves ++ [m]) ↔ Cancelled moves := by
    rw [cancelled_concat]
    constructor
    · rintro (hcancelled | ⟨hthere, hm⟩)
      · exact hcancelled
      · exact absurd (h.held.mp (hcancel hm)) hthere
    · exact Or.inl
  have hreleased : Released (moves ++ [m]) ↔ Released moves := by
    rw [released_concat]
    constructor
    · rintro (hreleased | hm)
      · exact hreleased
      · exact h.held.mp (hrelease hm)
    · exact Or.inl
  refine ⟨?_, ?_, ?_, ?_, ?_, ?_⟩
  · rw [hcancelled]
    exact h.cancelled
  · rw [hreleased]
    exact h.held
  · rw [hreported]
    exact h.waiting
  · rw [hreported, hcancelled, hreleased, hreturned]
    exact h.ready
  · rw [hreturned]
    exact h.spent
  · rw [hreturned]
    exact h.once

theorem concat (h : Accords moves s) (heffect : Effect s m ((new.run moves).answer m) t) :
    Accords (moves ++ [m]) t := by
  generalize hanswer : (new.run moves).answer m = a at heffect
  cases heffect with
  | cancel hheld => exact h.cancel hheld (by rw [hanswer]; rfl)
  | release hheld => exact h.release (by rw [hanswer]; rfl)
  | take hcancel hrelease hreport hout => exact h.take hcancel hrelease hreport hout hanswer
  | report hreport hwaiting ha => exact h.report hreport hwaiting (by rw [hanswer, ha])
  | none hcancel hrelease hreport ha =>
      exact h.skip hcancel hrelease hreport (by rw [hanswer, ha])

theorem outcome?_eq (h : Accords moves s) (hlive : ¬ Cancelled moves)
    (hthere : ¬ Released moves) (hreturned : returned moves = []) :
    s.outcome? = reported? moves := by
  have hcancelled : s.cancelled = false := Bool.eq_false_iff.mpr (mt h.cancelled.mp hlive)
  cases hreported : reported? moves with
  | none => simp [Submission.outcome?, h.waiting.mpr hreported, hcancelled]
  | some o => simp [Submission.outcome?, h.ready o hreported hlive hthere hreturned, hcancelled]

end Accords

theorem accords_run (moves : List Move) : Accords moves (new.run moves).submission := by
  induction moves using List.reverseRecOn with
  | nil => exact accords_nil
  | append_singleton moves m ih =>
      rw [run_concat]
      exact ih.concat (effect_step _ m)

/-- The call that is kept belongs to an awaiting side that is there, and one that will never return
has nothing to wait for. -/
structure Kept (x : Exchange) : Prop where
  held : x.call ≠ none → x.submission.held = true
  stuck : x.call = some .stuck → x.submission.cancelled = true ∨ x.submission.report = .spent

namespace Kept

variable {x : Exchange}

theorem of_none (h : x.call = none) : x.Kept := by
  constructor
  · exact fun hcall => absurd h hcall
  · intro hcall
    rw [h] at hcall
    cases hcall

theorem reported (h : x.Kept) {t : Submission} (ht : x.submission.Reported t) :
    Kept { x with submission := t } := by
  constructor
  · intro hcall
    exact ht.held.trans (h.held hcall)
  · intro hcall
    rcases h.stuck hcall with hcancelled | hspent
    · exact Or.inl (ht.cancelled.trans hcancelled)
    · exact Or.inr (ht.spent hspent)

theorem ask (hheld : x.submission.held = true) : (x.ask .waiting).2.Kept := by
  rcases ask_waiting x with ⟨o, -, heq⟩ | ⟨-, c, heq, hstuck⟩
  · rw [heq]
    exact of_none rfl
  · rw [heq]
    refine ⟨fun _ => hheld, ?_⟩
    intro hcall
    exact hstuck (Option.some.inj hcall)

theorem byAwaiting (h : x.Kept) {result : Answer × Exchange}
    (hresult : x.submission.held = true → result.2.Kept) : (x.byAwaiting result).2.Kept := by
  unfold Exchange.byAwaiting
  split
  · rename_i hheld
    exact hresult hheld
  · exact h

theorem byReporting (h : x.Kept) {result : Answer × Exchange} (hresult : result.2.Kept) :
    (x.byReporting result).2.Kept := by
  unfold Exchange.byReporting
  split
  · exact hresult
  · exact h

theorem step (h : x.Kept) (m : Move) : (x.step m).2.Kept := by
  cases m with
  | cancel => exact h.byAwaiting fun _ => ⟨h.held, fun _ => Or.inl rfl⟩
  | askCancelled => exact h.byAwaiting fun _ => h
  | poll => exact h.byAwaiting fun _ => of_none rfl
  | await => exact h.byAwaiting ask
  | resume =>
      unfold Exchange.step
      cases hcall : x.call with
      | none => exact h
      | some c =>
          cases c with
          | waiting => exact ask (h.held (by simp [hcall]))
          | stuck => exact ⟨fun _ => h.held (by simp [hcall]), fun _ => h.stuck hcall⟩
  | giveUp => exact h.byAwaiting fun _ => of_none rfl
  | release => exact h.byAwaiting fun _ => of_none rfl
  | complete o => exact h.byReporting (h.reported (Submission.reported_complete o _))
  | abandon => exact h.byReporting (h.reported (Submission.reported_abandon _))
  | seeCancelled => exact h.byReporting h

end Kept

theorem kept_run (moves : List Move) : (new.run moves).Kept := by
  induction moves using List.reverseRecOn with
  | nil => exact Kept.of_none rfl
  | append_singleton moves m ih =>
      rw [run_concat]
      exact ih.step m

section Answers

variable {x : Exchange}

theorem answer_complete (hwaiting : x.submission.report = .waiting) (o : Outcome) :
    x.answer (.complete o) = .flag (!x.submission.cancelled && x.submission.held) := by
  simp only [answer, step, byReporting, Submission.awaitsReport, hwaiting, decide_true, if_true,
    Submission.complete, Submission.accepts, beq_self_eq_true, Bool.true_and]
  split
  · rename_i haccepts
    rw [haccepts]
  · rename_i haccepts
    rw [Bool.eq_false_iff.mpr haccepts]

theorem answer_complete_of_reported (hreported : x.submission.report ≠ .waiting) (o : Outcome) :
    x.answer (.complete o) = .gone := by
  simp [answer, step, byReporting, Submission.awaitsReport, hreported]

theorem answer_seeCancelled (hwaiting : x.submission.report = .waiting) :
    x.answer .seeCancelled = .flag x.submission.cancelled := by
  simp [answer, step, byReporting, Submission.awaitsReport, hwaiting]

theorem answer_askCancelled (hheld : x.submission.held = true) :
    x.answer .askCancelled = .flag x.submission.cancelled := by
  simp [answer, step, byAwaiting, hheld]

theorem fst_ask_waiting (x : Exchange) :
    (x.ask .waiting).1 = .ofOutcome? x.submission.outcome? := by
  rcases ask_waiting x with ⟨o, hout, heq⟩ | ⟨hout, c, heq, -⟩
  · rw [heq, hout]
    rfl
  · rw [heq, hout]
    rfl

theorem answer_call (h : x.Kept) (hheld : x.submission.held = true)
    (hcancelled : x.submission.cancelled = false) (hspent : x.submission.report ≠ .spent) {m : Move}
    (hm : m = .poll ∨ m = .await ∨ m = .resume ∧ x.call ≠ none) :
    x.answer m = .ofOutcome? x.submission.outcome? := by
  rcases hm with rfl | rfl | ⟨rfl, hcall⟩
  · simp only [answer, step, byAwaiting, hheld, if_true, fst_ask_waiting]
  · simp only [answer, step, byAwaiting, hheld, if_true, fst_ask_waiting]
  · obtain ⟨c, hc⟩ := Option.ne_none_iff_exists'.mp hcall
    cases c with
    | waiting => simp only [answer, step, hc, fst_ask_waiting]
    | stuck =>
        rcases h.stuck hc with hcancel | hspent'
        · rw [hcancel] at hcancelled
          cases hcancelled
        · exact absurd hspent' hspent

theorem of_answer_outcome {m : Move} {o : Outcome} (h : x.answer m = .outcome o) :
    x.submission.outcome? = some o := by
  have heffect := effect_step x m
  rw [h] at heffect
  generalize (x.step m).2.submission = t at heffect
  cases heffect with
  | take _ _ _ hout => exact hout
  | report _ _ ha => cases ha
  | none _ _ _ ha => cases ha

theorem call_of_pending (h : x.answer .await = .pending) : (x.step .await).2.call ≠ none := by
  cases hheld : x.submission.held with
  | false => simp [answer, step, byAwaiting, hheld] at h
  | true =>
      simp only [answer, step, byAwaiting, hheld, if_true] at h ⊢
      rcases ask_waiting x with ⟨o, -, heq⟩ | ⟨-, c, heq, -⟩
      · rw [heq] at h
        cases h
      · rw [heq]
        exact nofun

/-- A call that is kept stays until it returns, or until the awaiting side starts another one, gives
it up or goes away. -/
theorem call_step (hcall : x.call ≠ none) {m : Move}
    (hm : m ∉ [.poll, .await, .giveUp, .release]) (hanswer : (x.answer m).outcome? = none) :
    (x.step m).2.call ≠ none := by
  cases m with
  | cancel => simp only [step, byAwaiting]; split <;> exact hcall
  | askCancelled => simp only [step, byAwaiting]; split <;> exact hcall
  | poll => simp at hm
  | await => simp at hm
  | resume =>
      obtain ⟨c, hc⟩ := Option.ne_none_iff_exists'.mp hcall
      simp only [answer, step, hc] at hanswer ⊢
      cases c with
      | waiting =>
          rcases ask_waiting x with ⟨o, -, heq⟩ | ⟨-, c, heq, -⟩
          · rw [heq] at hanswer
            cases hanswer
          · rw [heq]
            exact nofun
      | stuck => exact nofun
  | giveUp => simp at hm
  | release => simp at hm
  | complete o => simp only [step, byReporting]; split <;> exact hcall
  | abandon => simp only [step, byReporting]; split <;> exact hcall
  | seeCancelled => simp only [step, byReporting]; split <;> exact hcall

end Answers

theorem run_of_report_spent {s : Submission} (hspent : s.report = .spent) (moves : List Move) :
    ((of s).run moves).submission.report = .spent := by
  induction moves using List.reverseRecOn with
  | nil => exact hspent
  | append_singleton moves m ih =>
      rw [run_concat]
      have heffect := effect_step ((of s).run moves) m
      generalize ((of s).run moves).answer m = a, (((of s).run moves).step m).2.submission = t
        at heffect ⊢
      cases heffect with
      | cancel => exact ih
      | release => exact ih
      | take => rfl
      | report _ hwaiting =>
          rw [ih] at hwaiting
          cases hwaiting
      | none => exact ih

/-- Every call returns this outcome until one has, for as long as the awaiting side has neither
cancelled nor gone away. No other outcome is returned, and this one only once. -/
structure DeliversOnce (s : Submission) (o : Outcome) : Prop where
  once (moves : List Move) : (of s).outcomes moves = [] ∨ (of s).outcomes moves = [o]
  next {moves : List Move} {m : Move} (hlive : ¬ Cancelled moves) (hthere : ¬ Released moves)
    (hfirst : (of s).outcomes moves = [])
    (hm : m = .poll ∨ m = .await ∨ m = .resume ∧ ((of s).run moves).call ≠ none) :
      ((of s).run moves).answer m = .outcome o

theorem outcomes_of_ready {s : Submission} {o : Outcome} (h : s.report = .ready o)
    (moves : List Move) :
    (of s).outcomes moves = [] ∧ ((of s).run moves).submission.report = .ready o ∨
      (of s).outcomes moves = [o] ∧ ((of s).run moves).submission.report = .spent := by
  induction moves using List.reverseRecOn with
  | nil => exact Or.inl ⟨rfl, h⟩
  | append_singleton moves m ih =>
      have heffect := effect_step ((of s).run moves) m
      rw [run_concat, outcomes_concat]
      generalize ((of s).run moves).answer m = a, (((of s).run moves).step m).2.submission = t
        at heffect ⊢
      -- Only an outcome that is taken is returned, and after that none is there.
      cases heffect with
      | cancel =>
          rw [show Answer.done.outcome?.toList = [] from rfl, List.append_nil]
          exact ih
      | release =>
          rw [show Answer.done.outcome?.toList = [] from rfl, List.append_nil]
          exact ih
      | take _ _ _ hout =>
          obtain ⟨-, hready⟩ := Submission.of_outcome? hout
          rcases ih with ⟨hnone, hreport⟩ | ⟨-, hspent⟩
          · obtain rfl := Report.ready.inj (hreport.symm.trans hready)
            exact Or.inr ⟨by rw [hnone]; rfl, rfl⟩
          · cases hspent.symm.trans hready
      | report _ hwaiting =>
          rcases ih with ⟨-, hreport⟩ | ⟨-, hreport⟩
          · cases hreport.symm.trans hwaiting
          · cases hreport.symm.trans hwaiting
      | none _ _ _ ha =>
          rw [ha, Option.toList_none, List.append_nil]
          exact ih

/-- A publication that has failed from the start delivers its error. -/
theorem deliversOnce_failed (e : PublishError) : DeliversOnce (.failed e) (.error e) where
  once moves := by
    rcases outcomes_of_ready (s := .failed e) rfl moves with ⟨h, -⟩ | ⟨h, -⟩
    · exact Or.inl h
    · exact Or.inr h
  next {moves m} hlive hthere hfirst hm := by
    -- Its sides are a fresh pair whose first move was to report the error.
    let all : List Move := .complete (.error e) :: moves
    have haccords : Accords all ((of (.failed e)).run moves).submission := accords_run all
    have hlive' : ¬ Cancelled all := by simpa [all, Cancelled] using hlive
    have hthere' : ¬ Released all := by simpa [all, Released] using hthere
    have hready := haccords.ready (.error e) rfl hlive' hthere' hfirst
    have hkept : ((of (.failed e)).run moves).Kept := kept_run all
    have hcancelled := Bool.eq_false_iff.mpr (mt haccords.cancelled.mp hlive')
    rw [answer_call hkept (haccords.held_iff.mpr hthere') hcancelled (by simp [hready]) hm,
      haccords.outcome?_eq hlive' hthere' hfirst]
    rfl

/-- What two sides can rely on, whatever moves they make and in whatever order. At most one call
ever returns. After a cancellation no call returns and no report is accepted; a report is accepted
exactly if the awaiting side has neither cancelled nor gone away. Until then, and until a call has
returned, every call returns with what was reported or has to wait, however many calls had to wait
before; a call that has to wait can be kept. The reporting side sees a cancellation, and never takes
it for one that the awaiting side goes away. -/
theorem protocol :
    (∀ moves : List Move,
      let x := new.run moves
      (returned moves).length ≤ 1 ∧
      (Cancelled moves → (∀ m o, x.answer m ≠ .outcome o) ∧
        (reported? moves = none → ∀ o, x.answer (.complete o) = .flag false)) ∧
      (reported? moves = none → ∀ o, ∃ b, x.answer (.complete o) = .flag b ∧
        (b = true ↔ ¬ Cancelled moves ∧ ¬ Released moves)) ∧
      (reported? moves ≠ none → ∀ o, x.answer (.complete o) = .gone) ∧
      (¬ Cancelled moves → ¬ Released moves → returned moves = [] →
        ∀ m, m = .poll ∨ m = .await ∨ m = .resume ∧ x.call ≠ none →
          x.answer m = .ofOutcome? (reported? moves)) ∧
      (x.answer .await = .pending → (x.step .await).2.call ≠ none) ∧
      (∀ m, x.call ≠ none → m ∉ [.poll, .await, .giveUp, .release] →
        (x.answer m).outcome? = none → (x.step m).2.call ≠ none) ∧
      (reported? moves = none → ∃ b, x.answer .seeCancelled = .flag b ∧
        (x.step .release).2.answer .seeCancelled = .flag b ∧ (b = true ↔ Cancelled moves)) ∧
      (¬ Released moves → ∃ b, x.answer .askCancelled = .flag b ∧ (b = true ↔ Cancelled moves))) ∧
    (∀ (e : PublishError) (moves : List Move),
      (of (.failed e)).answers moves = (new.step (.complete (.error e))).2.answers moves) ∧
    ∀ (moves : List Move) (m : Move) (o : Outcome),
      ((of .inert).run moves).answer m ≠ .outcome o := by
  refine ⟨?_, ?_, ?_⟩
  · intro moves x
    have h : Accords moves x.submission := accords_run moves
    have hkept : x.Kept := kept_run moves
    refine ⟨h.once, ?_, ?_, ?_, ?_, call_of_pending, ?_, ?_, ?_⟩
    · intro hcancelled
      have hflag : x.submission.cancelled = true := h.cancelled.mpr hcancelled
      constructor
      · intro m o hanswer
        have hlive := (Submission.of_outcome? (of_answer_outcome hanswer)).1
        rw [hflag] at hlive
        cases hlive
      · intro hreported o
        rw [answer_complete (h.waiting.mpr hreported), hflag]
        rfl
    · intro hreported o
      refine ⟨_, answer_complete (h.waiting.mpr hreported) o, ?_⟩
      rw [Bool.and_eq_true, Bool.not_eq_true', ← h.cancelled, h.held_iff, Bool.not_eq_true]
    · intro hreported o
      exact answer_complete_of_reported (mt h.waiting.mp hreported) o
    · intro hlive hthere hreturned m hm
      have hout := h.outcome?_eq hlive hthere hreturned
      have hcancelled : x.submission.cancelled = false :=
        Bool.eq_false_iff.mpr (mt h.cancelled.mp hlive)
      rw [answer_call hkept (h.held_iff.mpr hthere) hcancelled ?_ hm, hout]
      cases hreported : reported? moves with
      | none => simp [h.waiting.mpr hreported]
      | some o => simp [h.ready o hreported hlive hthere hreturned]
    · intro m hcall hm hanswer
      exact call_step hcall hm hanswer
    · intro hreported
      have hwaiting := h.waiting.mpr hreported
      refine ⟨_, answer_seeCancelled hwaiting, ?_, h.cancelled⟩
      cases hheld : x.submission.held with
      | true =>
          simp only [step, byAwaiting, hheld, if_true]
          exact answer_seeCancelled hwaiting
      | false =>
          simp only [step, byAwaiting, hheld]
          exact answer_seeCancelled hwaiting
    · intro hthere
      exact ⟨_, answer_askCancelled (h.held_iff.mpr hthere), h.cancelled⟩
  · intro e moves
    rfl
  · intro moves m o hanswer
    have hready := (Submission.of_outcome? (of_answer_outcome hanswer)).2
    rw [run_of_report_spent rfl] at hready
    cases hready

end Exchange

end Keyring
