import Keyring.Proofs.Rotation.Outlook

namespace Keyring

open Rotation

section

variable [Scheme] {ω : Type}

/-- What may come of a poll, from one moment of a history to another, for someone who waits for a
first key. The latest status at some moment of the poll decides: if it names a key, then the key in
use is read, at that moment or later, and if it names none, then the wait goes on, unless the loop
has ended. -/
inductive Polled (history : List Outlook) (first last : Nat) :
    Option (Except KeyError SigningKey) → Prop
  | found {i j : Nat} {seen read : Outlook} (hi : first ≤ i) (hij : i ≤ j) (hj : j ≤ last)
      (hseen : history[i]? = some seen) (hread : history[j]? = some read)
      (hactive : seen.status.active ≠ none) : Polled history first last (some read.activeKey)
  | stopped {i : Nat} {seen : Outlook} (hi : first ≤ i) (hlast : i ≤ last)
      (hseen : history[i]? = some seen) (hended : seen.ended = true)
      (hactive : seen.status.active = none) :
      Polled history first last (some (.error .rotationStopped))
  | pending {i : Nat} {seen : Outlook} (hi : first ≤ i) (hlast : i ≤ last)
      (hseen : history[i]? = some seen) (hended : seen.ended = false)
      (hactive : seen.status.active = none) : Polled history first last none

theorem Loop.activeKey_outlook (l : Loop ω) : l.outlook.activeKey = l.activeKey := by
  rw [Loop.activeKey, Loop.keys_eq]
  rfl

/-- A poll that takes no time comes to what the loop itself tells those who wait. -/
theorem polled_iff_firstKey? {history : List Outlook} {i : Nat} {l : Loop ω}
    (h : history[i]? = some l.outlook) (r : Option (Except KeyError SigningKey)) :
    Polled history i i r ↔ r = l.firstKey? := by
  have hsome : l.status.active ≠ none → l.firstKey? = some l.outlook.activeKey := by
    intro hactive
    rw [Loop.activeKey_outlook]
    exact if_pos (Option.isSome_iff_ne_none.mpr hactive)
  have hnone : l.status.active = none →
      l.firstKey? = if l.hasEnded then some (.error .rotationStopped) else none := by
    intro hactive
    rw [Loop.firstKey?, hactive]
    rfl
  constructor
  · intro hpolled
    cases hpolled with
    | @found j k seen read hi hij hj hseen hread hactive =>
        obtain ⟨rfl, rfl⟩ : j = i ∧ k = i := by omega
        obtain rfl := Option.some.inj (h.symm.trans hseen)
        obtain rfl := Option.some.inj (h.symm.trans hread)
        exact (hsome hactive).symm
    | stopped hi hlast hseen hended hactive =>
        obtain rfl := Nat.le_antisymm hlast hi
        obtain rfl := Option.some.inj (h.symm.trans hseen)
        exact ((hnone hactive).trans (if_pos hended)).symm
    | pending hi hlast hseen hended hactive =>
        obtain rfl := Nat.le_antisymm hlast hi
        obtain rfl := Option.some.inj (h.symm.trans hseen)
        exact ((hnone hactive).trans (if_neg (ne_true_of_eq_false hended))).symm
  · rintro rfl
    by_cases hactive : l.status.active = none
    · rw [hnone hactive]
      cases hended : l.hasEnded with
      | true => exact .stopped (Nat.le_refl i) (Nat.le_refl i) h hended hactive
      | false => exact .pending (Nat.le_refl i) (Nat.le_refl i) h hended hactive
    · rw [hsome hactive]
      exact .found (Nat.le_refl i) (Nat.le_refl i) (Nat.le_refl i) h h hactive

theorem exists_polled {history : List Outlook} {first last : Nat} {o : Outlook}
    (hle : first ≤ last) (h : history[first]? = some o) : ∃ r, Polled history first last r := by
  by_cases hactive : o.status.active = none
  · cases hended : o.ended with
    | true => exact ⟨_, .stopped (Nat.le_refl first) hle h hended hactive⟩
    | false => exact ⟨_, .pending (Nat.le_refl first) hle h hended hactive⟩
  · exact ⟨_, .found (Nat.le_refl first) (Nat.le_refl first) hle h h hactive⟩

namespace Outlook

/-- A success was told, so far. -/
def Reported (o : Outlook) : Prop := ∃ status ∈ o.statuses, 0 < status.completed

theorem Fair.active_ne_none {o : Outlook} (h : o.Fair) (hstatus : o.status.active ≠ none) :
    o.active ≠ none := by
  unfold status at hstatus
  cases hstatuses : o.statuses with
  | nil =>
      rw [hstatuses] at hstatus
      exact absurd rfl hstatus
  | cons status statuses =>
      rw [hstatuses] at hstatus
      have hmem : status ∈ o.statuses := by
        rw [hstatuses]
        exact List.mem_cons_self
      exact h.backed status hmem hstatus

theorem activeKey_of_ne_none {o : Outlook} (h : o.active ≠ none) :
    ∃ k, o.active = some k ∧ o.activeKey = .ok k := by
  obtain ⟨k, hk⟩ := Option.ne_none_iff_exists'.mp h
  exact ⟨k, hk, by rw [activeKey, hk]⟩

theorem fair_new (world : ω) : (Loop.new world).outlook.Fair where
  backed := nofun
  latest _ := nofun
  final := nofun

end Outlook

namespace Chronicle

theorem lastSuccess_of_idle {c : Chronicle ω} (hc : c.Sound) (h : c.loop.slots.active = none) :
    c.deeds.lastSuccess = none := by
  cases hlast : c.deeds.lastSuccess with
  | none => rfl
  | some t =>
      obtain ⟨n, k, -, -, hactive, -⟩ := hc.accounted.active t hlast
      exact absurd (h.symm.trans hactive) (Option.some_ne_none k).symm

section

variable {p : Plan ω} {world : ω} {turns : List (Loop.Turn ω)} {i j : Nat} {o o' : Outlook}

theorem later_of_moments (hle : i ≤ j) (hi : ((new world).moments p turns)[i]? = some o)
    (hj : ((new world).moments p turns)[j]? = some o') :
    Outlook.Later o o' ∧ Outlook.Later o' (run p world turns).loop.outlook :=
  (path_run p world turns).later_of_le hle hi hj

theorem fair_moment (hi : ((new world).moments p turns)[i]? = some o) : o.Fair :=
  (Outlook.fair_new world).later (later_of_moments (Nat.zero_le i) rfl hi).1

theorem active_ne_none_of_reported (hi : ((new world).moments p turns)[i]? = some o)
    (h : o.Reported) : ∃ status ∈ o.statuses, status.active ≠ none := by
  obtain ⟨status, hstatus, hcompleted⟩ := h
  refine ⟨status, hstatus, ?_⟩
  have hsuffix := (later_of_moments (Nat.le_refl i) hi hi).2.statuses_suffix
  rw [ne_eq, (Truthful.run p world turns).served status (hsuffix.subset hstatus)]
  exact Nat.ne_of_gt hcompleted

/-- Once a success was told the latest status names a key at every moment. -/
theorem status_ne_none_of_reported (hle : i ≤ j)
    (hi : ((new world).moments p turns)[i]? = some o)
    (hj : ((new world).moments p turns)[j]? = some o') (h : o.Reported) :
    o'.status.active ≠ none := by
  obtain ⟨status, hstatus, hne⟩ := active_ne_none_of_reported hi h
  intro hnone
  have hmem := (later_of_moments hle hi hj).1.statuses_suffix.subset hstatus
  exact hne ((fair_moment hj).latest hnone status hmem)

theorem idle_of_ended (hi : ((new world).moments p turns)[i]? = some o) (hended : o.ended = true)
    (hstatus : o.status.active = none) :
    (run p world turns).loop.hasEnded = true ∧ (run p world turns).deeds.lastSuccess = none := by
  have hlast := (later_of_moments (Nat.le_refl i) hi hi).2.eq_of_ended hended
  have hactive : (run p world turns).loop.outlook.active = none := by
    rw [hlast]
    exact (fair_moment hi).final hended hstatus
  refine ⟨?_, lastSuccess_of_idle (sound_run p world turns) hactive⟩
  show (run p world turns).loop.outlook.ended = true
  rw [hlast]
  exact hended

end

/-- Between two turns a poll comes to what the loop itself tells. -/
theorem polled_at_rest (p : Plan ω) (world : ω) (turns : List (Loop.Turn ω))
    (r : Option (Except KeyError SigningKey)) :
    let now := ((new world).momentsAfter p turns).length
    Polled ((new world).moments p turns) now now r ↔ r = (run p world turns).loop.firstKey? :=
  polled_iff_firstKey? (path_run p world turns).getElem?_length r

/-- Whoever waits for a first key is never told that there is none. The wait is over with the key in
use, at a moment of the poll, once a success was told. It is over without a key only if the loop has
ended and no publication ever succeeded, and it goes on only while the loop does and no success was
told. Every poll comes to something, whenever it is made. -/
theorem first_key (p : Plan ω) (world : ω) (turns : List (Loop.Turn ω)) {first last : Nat}
    {o o' : Outlook} (hle : first ≤ last)
    (hfirst : ((new world).moments p turns)[first]? = some o)
    (hlast : ((new world).moments p turns)[last]? = some o') :
    let history := (new world).moments p turns
    (∃ r, Polled history first last r) ∧ ∀ r, Polled history first last r →
      r ≠ some (.error .noActiveKey) ∧
      (∀ k, r = some (.ok k) → ∃ i seen, first ≤ i ∧ i ≤ last ∧ history[i]? = some seen ∧
        seen.active = some k) ∧
      (o.Reported → ∃ k, r = some (.ok k)) ∧
      (r = some (.error .rotationStopped) → o'.ended = true ∧
        (run p world turns).loop.hasEnded = true ∧
        (run p world turns).deeds.lastSuccess = none) ∧
      (r = none → o.ended = false ∧ ¬ o.Reported) := by
  intro history
  refine ⟨exists_polled hle hfirst, ?_⟩
  intro r hpolled
  cases hpolled with
  | @found i j seen read hi hij hj hseen hread hactive =>
      obtain ⟨k, hk, hkey⟩ : ∃ k, read.active = some k ∧ read.activeKey = .ok k := by
        apply Outlook.activeKey_of_ne_none
        exact (later_of_moments hij hseen hread).1.active_ne_none
          ((fair_moment hseen).active_ne_none hactive)
      rw [hkey]
      refine ⟨by simp, ?_, fun _ => ⟨k, rfl⟩, by simp, by simp⟩
      intro k' hk'
      cases hk'
      exact ⟨j, read, Nat.le_trans hi hij, hj, hread, hk⟩
  | stopped hi hj hseen hended hactive =>
      refine ⟨by simp, by simp, ?_, ?_, by simp⟩
      · intro hreported
        exact absurd hactive (status_ne_none_of_reported hi hfirst hseen hreported)
      · intro _
        obtain rfl := (later_of_moments hj hseen hlast).1.eq_of_ended hended
        exact ⟨hended, idle_of_ended hseen hended hactive⟩
  | @pending i seen hi hj hseen hended hactive =>
      have hsilent : ¬ o.Reported := fun hreported =>
        status_ne_none_of_reported hi hfirst hseen hreported hactive
      refine ⟨by simp, by simp, fun hreported => absurd hreported hsilent, by simp,
        fun _ => ⟨?_, hsilent⟩⟩
      cases hfirstEnded : o.ended with
      | false => rfl
      | true =>
          obtain rfl := (later_of_moments hi hfirst hseen).1.eq_of_ended hfirstEnded
          exact hfirstEnded.symm.trans hended

end Chronicle

end

namespace Chronicle

/-- A poll that begins when the loop has told its success and ends when the loop was stopped. -/
theorem first_key_stopped :
    letI : Scheme := .plain
    let serve (stop : Bool) : Loop.Turn Unit := .serve ⟨stop, false, false⟩ 0
    let turns := [serve false, serve false, serve true]
    let history := (new ()).moments eager turns
    history.map (fun o => o.status.phase) = [.bootstrapping, .bootstrapping, .bootstrapping,
      .awaiting, .awaiting, .awaiting, .idle, .idle, .stopped, .stopped] ∧
    (∃ o, history[9]? = some o ∧ o.ended = true) ∧
    ∃ k, Polled history 6 9 (some (.ok k)) := by
  let _ : Scheme := .plain
  let serve (stop : Bool) : Loop.Turn Unit := .serve ⟨stop, false, false⟩ 0
  obtain ⟨⟨r, hpolled⟩, hall⟩ := first_key eager () [serve false, serve false, serve true]
    (show 6 ≤ 9 by decide) rfl rfl
  obtain ⟨-, -, hreported, -, -⟩ := hall r hpolled
  obtain ⟨k, rfl⟩ := hreported ⟨_, List.mem_cons_self, by decide⟩
  exact ⟨rfl, ⟨_, rfl, rfl⟩, k, hpolled⟩

end Chronicle

end Keyring
