import Keyring.Proofs.Rotation.Reaction

namespace Keyring

open Rotation

namespace Tracked

variable {t : Tracked} {f : Submission → Submission} {submissions : Submissions} {n : Nat}

theorem eq_of_number? (h : t.number? = some n) : t = .submitted n := by
  cases t with
  | submitted m =>
      cases h
      rfl
  | _ => cases h

@[simp]
theorem length_amend : (t.amend f submissions).length = submissions.length := by
  cases t <;> simp [amend]

theorem getElem?_amend {s : Submission} (h : (t.amend f submissions)[n]? = some s) :
    (t = .submitted n ∧ ∃ r, submissions[n]? = some r ∧ f r = s) ∨
      (t ≠ .submitted n ∧ submissions[n]? = some s) := by
  cases t with
  | submitted m =>
      simp only [amend, List.getElem?_modify] at h
      obtain ⟨r, hr, hs⟩ := Option.map_eq_some_iff.mp h
      by_cases hm : m = n
      · rw [if_pos hm] at hs
        exact Or.inl ⟨by rw [hm], r, hr, hs⟩
      · rw [if_neg hm] at hs
        refine Or.inr ⟨?_, ?_⟩
        · intro heq
          exact hm (Tracked.submitted.inj heq)
        · rw [hr, ← hs]
  | inert => exact Or.inr ⟨by simp, h⟩
  | failed e => exact Or.inr ⟨by simp, h⟩

end Tracked

variable [Scheme] {ω : Type}

theorem Deed.number?_attempt {bid : Bid} {n : Nat} (h : bid.operation = some (.submitted n)) :
    (Deed.attempt bid).number? = some n := by
  simp [number?, h, Tracked.number?]

namespace Deeds

theorem about_cons (n : Nat) (d : Deed) (ds : Deeds) :
    about n (d :: ds) = if d.number? = some n then d :: about n ds else about n ds := by
  simp only [about, List.filter_cons, decide_eq_true_eq]

theorem about_cons_of_ne {n : Nat} {d : Deed} (h : d.number? ≠ some n) (ds : Deeds) :
    about n (d :: ds) = about n ds := by
  rw [about_cons, if_neg h]

theorem mem_about {n : Nat} {d : Deed} {ds : Deeds} :
    d ∈ about n ds ↔ d ∈ ds ∧ d.number? = some n := by
  simp [about]

theorem Carries.cons {ds : Deeds} {n : Nat} {k : SigningKey} (h : ds.Carries n k) (d : Deed) :
    Carries (d :: ds) n k := by
  obtain ⟨bid, hmem, hoperation, hdraw⟩ := h
  exact ⟨bid, List.mem_cons_of_mem d hmem, hoperation, hdraw⟩

theorem lastSuccess_cons_of_none {d : Deed} (h : d.success? = none) (ds : Deeds) :
    lastSuccess (d :: ds) = lastSuccess ds := by
  simp [lastSuccess, h]

end Deeds

/-- The whole story of a publication that a key server has taken: it was submitted, and then it was
cancelled, or it gave its outcome, or neither. -/
inductive Story (n : Nat) : Deeds → Submission → Prop
  | live {bid : Bid} {k : SigningKey} {s : Submission}
      (hoperation : bid.operation = some (.submitted n)) (hdraw : bid.draw = .key k)
      (hcancelled : s.cancelled = false) (hheld : s.held = true) : Story n [.attempt bid] s
  | cancelled {bid : Bid} {k : SigningKey} {s : Submission}
      (hoperation : bid.operation = some (.submitted n)) (hdraw : bid.draw = .key k)
      (hcancelled : s.cancelled = true) :
      Story n [.cancel (.submitted n), .attempt bid] s
  | observed {bid : Bid} {k : SigningKey} {s : Submission} {o : Outcome}
      (hoperation : bid.operation = some (.submitted n)) (hdraw : bid.draw = .key k)
      (hcancelled : s.cancelled = false) (hheld : s.held = false) (hreport : s.report = .spent) :
      Story n [.observe (.submitted n) o, .attempt bid] s

namespace Story

variable {n : Nat} {ds : Deeds} {s t : Submission}

theorem reported (h : Story n ds s) (hreported : s.Reported t) : Story n ds t := by
  cases h with
  | live hoperation hdraw hcancelled hheld =>
      exact .live hoperation hdraw (hreported.cancelled.trans hcancelled)
        (hreported.held.trans hheld)
  | cancelled hoperation hdraw hcancelled =>
      exact .cancelled hoperation hdraw (hreported.cancelled.trans hcancelled)
  | observed hoperation hdraw hcancelled hheld hreport =>
      exact .observed hoperation hdraw (hreported.cancelled.trans hcancelled)
        (hreported.held.trans hheld) (hreported.spent hreport)

/-- A submission that is still awaited has been attempted, and nothing else happened to it. -/
theorem attempt_of_live (h : Story n ds s) (hcancelled : s.cancelled = false)
    (hheld : s.held = true) :
    ∃ bid k, ds = [.attempt bid] ∧ bid.operation = some (.submitted n) ∧ bid.draw = .key k := by
  cases h with
  | live hoperation hdraw _ _ => exact ⟨_, _, rfl, hoperation, hdraw⟩
  | cancelled _ _ htrue =>
      rw [htrue] at hcancelled
      cases hcancelled
  | observed _ _ _ hfalse _ =>
      rw [hfalse] at hheld
      cases hheld

theorem cancel (h : Story n ds s) (hcancelled : s.cancelled = false) (hheld : s.held = true) :
    Story n (.cancel (.submitted n) :: ds) s.cancel := by
  obtain ⟨bid, k, rfl, hoperation, hdraw⟩ := h.attempt_of_live hcancelled hheld
  exact .cancelled hoperation hdraw rfl

theorem observe (h : Story n ds s) (hcancelled : s.cancelled = false) (hheld : s.held = true)
    {o : Outcome} (hreport : s.report = .ready o) :
    Story n (.observe (.submitted n) o :: ds) s.poll.2.release := by
  obtain ⟨bid, k, rfl, hoperation, hdraw⟩ := h.attempt_of_live hcancelled hheld
  rw [Submission.poll_of_ready hcancelled hreport]
  exact .observed hoperation hdraw hcancelled rfl rfl

theorem bid_unique (h : Story n ds s) {bid other : Bid} (hbid : .attempt bid ∈ ds)
    (hother : .attempt other ∈ ds) : other = bid := by
  cases h with
  | live _ _ _ _ => simp_all
  | cancelled _ _ _ => simp_all
  | observed _ _ _ _ _ => simp_all

theorem not_observed_of_cancelled (h : Story n ds s) {m : Nat} {t : Tracked}
    (hcancel : .cancel (.submitted m) ∈ ds) {o : Outcome} : .observe t o ∉ ds := by
  cases h with
  | live _ _ _ _ => simp at hcancel
  | cancelled _ _ _ => simp
  | observed _ _ _ _ _ => simp at hcancel

theorem outcome_unique (h : Story n ds s) {t t' : Tracked} {o other : Outcome}
    (ho : .observe t o ∈ ds) (hother : .observe t' other ∈ ds) : other = o := by
  cases h with
  | live _ _ _ _ => simp at ho
  | cancelled _ _ _ => simp at ho
  | observed _ _ _ _ _ => simp_all

theorem finished_or_live (h : Story n ds s) :
    ds.Finished n ∧ (s.cancelled = true ∨ s.held = false) ∨
      s.cancelled = false ∧ s.held = true := by
  cases h with
  | live _ _ hcancelled hheld => exact Or.inr ⟨hcancelled, hheld⟩
  | cancelled _ _ hcancelled =>
      exact Or.inl ⟨Or.inl List.mem_cons_self, Or.inl hcancelled⟩
  | observed _ _ _ hheld _ =>
      exact Or.inl ⟨Or.inr ⟨_, List.mem_cons_self⟩, Or.inr hheld⟩

theorem exists_bid (h : Story n ds s) :
    ∃ bid, .attempt bid ∈ ds ∧ bid.operation = some (.submitted n) := by
  cases h with
  | @live bid _ _ hoperation _ _ _ => exact ⟨bid, by simp, hoperation⟩
  | @cancelled bid _ _ hoperation _ _ => exact ⟨bid, by simp, hoperation⟩
  | @observed bid _ _ _ hoperation _ _ _ _ => exact ⟨bid, by simp, hoperation⟩

theorem not_finished (h : Story n ds s) (hcancelled : s.cancelled = false)
    (hheld : s.held = true) : ¬ ds.Finished n := by
  obtain ⟨bid, k, rfl, -, -⟩ := h.attempt_of_live hcancelled hheld
  simp [Deeds.Finished]

theorem cancelled_of_cancel (h : Story n ds s) {t : Tracked} (hcancel : .cancel t ∈ ds) :
    s.cancelled = true := by
  cases h with
  | live _ _ _ _ => simp at hcancel
  | cancelled _ _ hcancelled => exact hcancelled
  | observed _ _ _ _ _ => simp at hcancel

theorem cancelled_or_live_of_waiting (h : Story n ds s) (hwaiting : s.report = .waiting) :
    s.cancelled = true ∨ s.cancelled = false ∧ s.held = true := by
  cases h with
  | live _ _ hcancelled hheld => exact Or.inr ⟨hcancelled, hheld⟩
  | cancelled _ _ hcancelled => exact Or.inl hcancelled
  | observed _ _ _ _ hspent =>
      rw [hspent] at hwaiting
      cases hwaiting

end Story

/-- How the keys, the publication that is awaited and all submissions follow from what a loop has
done. -/
structure Accounted (ds : Deeds) (slots : Slots) (tracked : Tracked) (submissions : Submissions) :
    Prop where
  story : ∀ n s, submissions[n]? = some s → Story n (ds.about n) s
  future : ∀ n, submissions.length ≤ n → ds.about n = []
  live : ∀ n s, submissions[n]? = some s → s.cancelled = false → s.held = true →
    tracked = .submitted n
  latest : ∀ n, tracked = .submitted n → n + 1 = submissions.length ∧
    (∃ s, submissions[n]? = some s ∧ s.cancelled = false ∧ s.held = true) ∧
    ∃ k, slots.pending = some k ∧ ds.Carries n k
  lastBid : tracked ≠ .inert → ∃ bid, ds.lastBid = some bid ∧ bid.operation = some tracked
  idle : ds.lastSuccess = none → slots.active = none
  /-- The key in use is that of the last success, which is the success of the latest publication. -/
  active : ∀ t, ds.lastSuccess = some t → ∃ n k, t = .submitted n ∧ ds.Carries n k ∧
    slots.active = some k ∧ ∀ m, .observe (.submitted m) (.ok ()) ∈ ds → m ≤ n
  success : ∀ t, .observe t (.ok ()) ∈ ds → ∃ n, t = .submitted n

namespace Accounted

variable {ds : Deeds} {slots : Slots} {tracked : Tracked} {submissions : Submissions}
  {l : Loop ω}

theorem nil : Accounted [] .empty .inert [] where
  story n s hs := by simp at hs
  future n h := rfl
  live n s hs := by simp at hs
  latest n h := by cases h
  lastBid h := absurd rfl h
  idle h := rfl
  active t h := by cases h
  success t h := by cases h

theorem modify (h : Accounted ds slots tracked submissions) (i : Nat) {f : Submission → Submission}
    (hf : ∀ s : Submission, s.Reported (f s)) :
    Accounted ds slots tracked (submissions.modify i f) := by
  have hget : ∀ (n : Nat) (s : Submission), (submissions.modify i f)[n]? = some s →
      ∃ r, submissions[n]? = some r ∧ r.Reported s := by
    intro n s hs
    rw [List.getElem?_modify] at hs
    obtain ⟨r, hr, rfl⟩ := Option.map_eq_some_iff.mp hs
    refine ⟨r, hr, ?_⟩
    split
    · exact hf r
    · exact .refl r
  refine { h with story := ?_, future := ?_, live := ?_, latest := ?_ }
  · intro n s hs
    obtain ⟨r, hr, hreported⟩ := hget n s hs
    exact (h.story n r hr).reported hreported
  · intro n hn
    exact h.future n (by simpa using hn)
  · intro n s hs hcancelled hheld
    obtain ⟨r, hr, hreported⟩ := hget n s hs
    exact h.live n r hr (hreported.cancelled ▸ hcancelled) (hreported.held ▸ hheld)
  · -- The awaited publication may have been reported on, but its flags stay.
    intro n hn
    obtain ⟨hlength, ⟨s, hs, hcancelled, hheld⟩, hpending⟩ := h.latest n hn
    have hlt : n < (submissions.modify i f).length := by
      rw [List.length_modify]
      omega
    obtain ⟨r, hr, hreported⟩ := hget n _ (List.getElem?_eq_getElem hlt)
    obtain rfl : r = s := Option.some.inj (hr.symm.trans hs)
    refine ⟨by simpa using hlength, ⟨_, List.getElem?_eq_getElem hlt, ?_, ?_⟩, hpending⟩
    · rw [hreported.cancelled, hcancelled]
    · rw [hreported.held, hheld]

theorem lt_length (h : Accounted ds slots tracked submissions) {n : Nat} {d : Deed}
    (hd : d ∈ ds.about n) : n < submissions.length := by
  apply Nat.lt_of_not_le
  intro hn
  rw [h.future n hn] at hd
  cases hd

theorem story_of_mem (h : Accounted ds slots tracked submissions) {n : Nat} {d : Deed}
    (hd : d ∈ ds) (hnumber : d.number? = some n) :
    ∃ s, submissions[n]? = some s ∧ d ∈ ds.about n ∧ Story n (ds.about n) s := by
  have habout : d ∈ ds.about n := Deeds.mem_about.mpr ⟨hd, hnumber⟩
  have hs := List.getElem?_eq_getElem (h.lt_length habout)
  exact ⟨_, hs, habout, h.story n _ hs⟩

theorem bid_unique (h : Accounted ds slots tracked submissions) {n : Nat} {bid other : Bid}
    (hbid : .attempt bid ∈ ds) (hoperation : bid.operation = some (.submitted n))
    (hother : .attempt other ∈ ds) (hoperation' : other.operation = some (.submitted n)) :
    other = bid := by
  obtain ⟨s, -, hmem, hstory⟩ := h.story_of_mem hbid (Deed.number?_attempt hoperation)
  obtain ⟨-, -, hmem', -⟩ := h.story_of_mem hother (Deed.number?_attempt hoperation')
  exact hstory.bid_unique hmem hmem'

theorem carries_unique (h : Accounted ds slots tracked submissions) {n : Nat} {k k' : SigningKey}
    (hk : ds.Carries n k) (hk' : ds.Carries n k') : k' = k := by
  obtain ⟨bid, hbid, hoperation, hdraw⟩ := hk
  obtain ⟨other, hother, hoperation', hdraw'⟩ := hk'
  obtain rfl := h.bid_unique hbid hoperation hother hoperation'
  rw [hdraw] at hdraw'
  exact (Draw.key.inj hdraw').symm

theorem not_observed_of_cancelled (h : Accounted ds slots tracked submissions) {n : Nat}
    (hcancel : .cancel (.submitted n) ∈ ds) (o : Outcome) : .observe (.submitted n) o ∉ ds := by
  intro hobserve
  obtain ⟨s, -, hmem, hstory⟩ := h.story_of_mem hcancel rfl
  obtain ⟨-, -, hmem', -⟩ := h.story_of_mem hobserve rfl
  exact hstory.not_observed_of_cancelled hmem hmem'

theorem outcome_unique (h : Accounted ds slots tracked submissions) {n : Nat} {o other : Outcome}
    (ho : .observe (.submitted n) o ∈ ds) (hother : .observe (.submitted n) other ∈ ds) :
    other = o := by
  obtain ⟨s, -, hmem, hstory⟩ := h.story_of_mem ho rfl
  obtain ⟨-, -, hmem', -⟩ := h.story_of_mem hother rfl
  exact hstory.outcome_unique hmem hmem'

theorem cancelled_of_waiting (h : Accounted ds slots .inert submissions) {n : Nat} {s : Submission}
    (hs : submissions[n]? = some s) (hwaiting : s.report = .waiting) : s.cancelled = true := by
  rcases (h.story n s hs).cancelled_or_live_of_waiting hwaiting with hcancelled | ⟨hlive, hheld⟩
  · exact hcancelled
  · cases h.live n s hs hlive hheld

theorem active_cons (h : Accounted ds slots tracked submissions) {d : Deed} (slots' : Slots)
    (hslots : slots'.active = slots.active) (hd : d.success? = none) :
    ∀ t, Deeds.lastSuccess (d :: ds) = some t → ∃ n k, t = .submitted n ∧ ds.Carries n k ∧
      slots'.active = some k ∧ ∀ m, .observe (.submitted m) (.ok ()) ∈ d :: ds → m ≤ n := by
  intro t ht
  rw [Deeds.lastSuccess_cons_of_none hd] at ht
  obtain ⟨n, k, hn, hcarries, hactive, hlatest⟩ := h.active t ht
  refine ⟨n, k, hn, hcarries, hslots.trans hactive, ?_⟩
  intro m hm
  rcases List.mem_cons.mp hm with heq | hmem
  · subst heq
    cases hd
  · exact hlatest m hmem

theorem close (h : Accounted ds slots tracked submissions) {d : Deed}
    {f : Submission → Submission} {slots' : Slots} (hd : d.number? = tracked.number?)
    (hstory : ∀ n s, submissions[n]? = some s → tracked = .submitted n → s.cancelled = false →
      s.held = true → Story n (d :: ds.about n) (f s))
    (hdone : ∀ s : Submission, (f s).cancelled = true ∨ (f s).held = false)
    (hidle : Deeds.lastSuccess (d :: ds) = none → slots'.active = none)
    (hactive : ∀ t, Deeds.lastSuccess (d :: ds) = some t → ∃ n k, t = .submitted n ∧
      ds.Carries n k ∧ slots'.active = some k ∧
      ∀ m, .observe (.submitted m) (.ok ()) ∈ d :: ds → m ≤ n)
    (hsuccess : ∀ t, d = .observe t (.ok ()) → ∃ n, t = .submitted n) :
    Accounted (d :: ds) slots' .inert (tracked.amend f submissions) where
  story n s hs := by
    -- Only the awaited publication has something new in its story.
    rcases Tracked.getElem?_amend hs with ⟨htracked, r, hr, rfl⟩ | ⟨htracked, hs⟩
    · obtain ⟨-, ⟨s, hs, hcancelled, hheld⟩, -⟩ := h.latest n htracked
      obtain rfl : r = s := Option.some.inj (hr.symm.trans hs)
      have hnumber : d.number? = some n := by
        rw [hd, htracked]
        rfl
      rw [Deeds.about_cons, if_pos hnumber]
      exact hstory n r hr htracked hcancelled hheld
    · rw [Deeds.about_cons_of_ne]
      · exact h.story n s hs
      · rw [hd]
        exact fun hnumber => htracked (Tracked.eq_of_number? hnumber)
  future n hn := by
    rw [Tracked.length_amend] at hn
    rw [Deeds.about_cons_of_ne]
    · exact h.future n hn
    · rw [hd]
      intro hnumber
      have := (h.latest n (Tracked.eq_of_number? hnumber)).1
      omega
  live n s hs hcancelled hheld := by
    rcases Tracked.getElem?_amend hs with ⟨-, r, -, rfl⟩ | ⟨htracked, hs⟩
    · rcases hdone r with hdone | hdone
      · rw [hdone] at hcancelled
        cases hcancelled
      · rw [hdone] at hheld
        cases hheld
    · exact absurd (h.live n s hs hcancelled hheld) htracked
  latest n hn := by cases hn
  lastBid hn := absurd rfl hn
  idle := hidle
  active t ht := by
    obtain ⟨n, k, hn, hcarries, hslot⟩ := hactive t ht
    exact ⟨n, k, hn, hcarries.cons d, hslot⟩
  success t ht := by
    rcases List.mem_cons.mp ht with heq | hmem
    · exact hsuccess t heq.symm
    · exact h.success t hmem

theorem cancel (h : Accounted ds slots tracked submissions) :
    Accounted (.cancel tracked :: ds) slots .inert
      (tracked.amend Submission.cancel submissions) := by
  refine h.close rfl ?_ (fun s => Or.inl rfl) ?_ ?_ ?_
  · intro n s hs htracked hcancelled hheld
    subst htracked
    exact (h.story n s hs).cancel hcancelled hheld
  · rw [Deeds.lastSuccess_cons_of_none rfl]
    exact h.idle
  · exact h.active_cons _ rfl rfl
  · intro t ht
    cases ht

theorem observe_error (h : Accounted ds l.slots l.tracked l.submissions) {e : PublishError}
    (hout : l.outcome? = some (.error e)) :
    Accounted (.observe l.tracked (.error e) :: ds) l.slots .inert
      (l.tracked.amend (fun s => s.poll.2.release) l.submissions) := by
  refine h.close rfl ?_ (fun s => Or.inr rfl) ?_ ?_ ?_
  · intro n s hs htracked hcancelled hheld
    rw [htracked]
    exact (h.story n s hs).observe hcancelled hheld (Loop.report_of_outcome? hout htracked hs)
  · rw [Deeds.lastSuccess_cons_of_none rfl]
    exact h.idle
  · exact h.active_cons _ rfl rfl
  · intro t ht
    cases ht

/-- With a success the waiting key comes into use. It is the key of the publication that
succeeded. -/
theorem observe_ok (h : Accounted ds l.slots l.tracked l.submissions)
    (hout : l.outcome? = some (.ok ())) :
    Accounted (.observe l.tracked (.ok ()) :: ds) l.slots.promote .inert
      (l.tracked.amend (fun s => s.poll.2.release) l.submissions) := by
  obtain ⟨n, htracked⟩ : ∃ n, l.tracked = .submitted n := by
    rcases Loop.outcome?_cases hout with ⟨e, -, he⟩ | ⟨n, s, htracked, -⟩
    · cases he
    · exact ⟨n, htracked⟩
  refine h.close rfl ?_ (fun s => Or.inr rfl) ?_ ?_ ?_
  · intro n s hs htracked hcancelled hheld
    rw [htracked]
    exact (h.story n s hs).observe hcancelled hheld (Loop.report_of_outcome? hout htracked hs)
  · intro hnone
    cases hnone
  · intro t ht
    obtain rfl : l.tracked = t := Option.some.inj ht
    obtain ⟨hlength, -, k, hpending, hcarries⟩ := h.latest n htracked
    refine ⟨n, k, htracked, hcarries, by simp [Slots.promote, hpending], ?_⟩
    intro m hm
    rcases List.mem_cons.mp hm with heq | hmem
    · rw [htracked] at heq
      cases heq
      exact Nat.le_refl n
    · have := h.lt_length (Deeds.mem_about.mpr ⟨hmem, rfl⟩)
      omega
  · intro t ht
    cases ht
    exact ⟨n, htracked⟩

theorem attempt (h : Accounted ds slots .inert submissions) {bid : Bid} {slots' : Slots}
    {tracked' : Tracked} (hnumber : bid.operation.bind Tracked.number? = none)
    (hslots : slots'.active = slots.active)
    (htracked : tracked' ≠ .inert → bid.operation = some tracked') :
    Accounted (.attempt bid :: ds) slots' tracked' submissions where
  story n s hs := by
    rw [Deeds.about_cons_of_ne (by simp [Deed.number?, hnumber])]
    exact h.story n s hs
  future n hn := by
    rw [Deeds.about_cons_of_ne (by simp [Deed.number?, hnumber])]
    exact h.future n hn
  live n s hs hcancelled hheld := by cases h.live n s hs hcancelled hheld
  latest n hn := by
    rw [htracked (by simp [hn]), hn] at hnumber
    cases hnumber
  lastBid hn := ⟨bid, rfl, htracked hn⟩
  idle hn := by
    rw [hslots]
    exact h.idle hn
  active t ht := by
    obtain ⟨n, k, hn, hcarries, hactive, hlatest⟩ := h.active_cons slots' hslots rfl t ht
    exact ⟨n, k, hn, hcarries.cons _, hactive, hlatest⟩
  success t ht := by
    rcases List.mem_cons.mp ht with heq | hmem
    · cases heq
    · exact h.success t hmem

theorem submit (h : Accounted ds slots .inert submissions) {bid : Bid} {k : SigningKey}
    (hoperation : bid.operation = some (.submitted submissions.length)) (hdraw : bid.draw = .key k)
    (outcome : Option Outcome) :
    Accounted (.attempt bid :: ds) (slots.propose k) (.submitted submissions.length)
      (submissions ++ [Submission.opened outcome]) where
  story n s hs := by
    have hnumber := Deed.number?_attempt hoperation
    rcases getElem?_concat_cases hs with ⟨hlt, hs⟩ | ⟨rfl, rfl⟩
    · rw [Deeds.about_cons_of_ne]
      · exact h.story n s hs
      · rw [hnumber]
        simp only [ne_eq, Option.some.injEq]
        omega
    · -- Nothing was done about this number before, so its story begins with the attempt.
      have hopened := Submission.reported_opened outcome
      rw [Deeds.about_cons, if_pos hnumber, h.future _ (Nat.le_refl _)]
      exact .live hoperation hdraw hopened.cancelled hopened.held
  future n hn := by
    have hlength : submissions.length + 1 ≤ n := by
      simpa using hn
    rw [Deeds.about_cons_of_ne]
    · exact h.future n (by omega)
    · rw [Deed.number?_attempt hoperation]
      simp only [ne_eq, Option.some.injEq]
      omega
  live n s hs hcancelled hheld := by
    rcases getElem?_concat_cases hs with ⟨-, hs⟩ | ⟨rfl, -⟩
    · cases h.live n s hs hcancelled hheld
    · rfl
  latest n hn := by
    obtain rfl := Tracked.submitted.inj hn
    have hopened := Submission.reported_opened outcome
    refine ⟨by simp, ⟨_, List.getElem?_concat_length, hopened.cancelled, hopened.held⟩, k, rfl, ?_⟩
    exact ⟨bid, List.mem_cons_self, hoperation, hdraw⟩
  lastBid hn := ⟨bid, rfl, hoperation⟩
  idle hn := h.idle hn
  active t ht := by
    obtain ⟨n, k, hn, hcarries, hactive, hlatest⟩ :=
      h.active_cons (slots.propose _) rfl rfl t ht
    exact ⟨n, k, hn, hcarries.cons _, hactive, hlatest⟩
  success t ht := by
    rcases List.mem_cons.mp ht with heq | hmem
    · cases heq
    · exact h.success t hmem

theorem launch {w : World ω} {trigger : Trigger} {l' : Loop ω} {bid : Bid}
    (h : Accounted ds l.slots .inert l.submissions) (htracked : l.tracked = .inert)
    (hlaunch : Loop.Launch w trigger l bid l') :
    Accounted (.attempt bid :: ds) l'.slots l'.tracked l'.submissions := by
  cases hlaunch with
  | undrawn hdraw => exact h.attempt rfl rfl (absurd htracked)
  | failed hdraw => exact h.attempt rfl rfl fun _ => rfl
  | crashed hdraw hpublish => exact h.attempt rfl rfl (absurd htracked)
  | accepted hdraw hpublish => exact h.submit rfl rfl _

end Accounted

end Keyring
