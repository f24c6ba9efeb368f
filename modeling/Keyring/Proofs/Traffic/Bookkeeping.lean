import Keyring.Proofs.Server
import Keyring.Proofs.Traffic.History

namespace Keyring.Traffic

theorem complete_eq (i : Nat) (o : Outcome) (t : Traffic) :
    t.complete i o = ((t.server.complete i o t.submissions).1,
      ⟨(t.server.complete i o t.submissions).2.2, (t.server.complete i o t.submissions).2.1⟩) :=
  rfl

theorem getElem?_update (i j : Nat) (f : Submission → Submission) (t : Traffic) :
    (t.update i f).submissions[j]? =
      if i = j then t.submissions[j]?.map (fun s => if s.held then f s else s)
      else t.submissions[j]? := by
  rw [update, List.getElem?_modify]
  split <;> simp

variable [Scheme] {b : Server.Builder} {acts : List Act} {a : Act} {t : Traffic} {i : Nat}

/-- A submission is as what was done since makes it. While it is held it waits for its outcome. -/
structure Reflects (b : Server.Builder) (acts : List Act) (i : Nat) (s : Submission) : Prop where
  cancelled : s.cancelled = true ↔ Cancelled i acts
  held : s.held = true ↔ ¬ Dropped i acts
  waiting : Held b i acts → s.report = .waiting

structure Tracks (b : Server.Builder) (acts : List Act) (t : Traffic) : Prop where
  submissions : t.submissions.length = publications acts
  records : t.server.records.length = publications acts
  published : t.server.published = publications acts
  script : t.server.script = b.script.drop (publications acts)
  beyond : t.server.otherwise = b.beyond
  ascending : t.server.held.Pairwise (· < ·)
  held : ∀ i, i ∈ t.server.held ↔ Held b i acts
  reflects : ∀ i s, t.submissions[i]? = some s → Reflects b acts i s

theorem tracks_nil (b : Server.Builder) : Tracks b [] ⟨b.build, []⟩ where
  submissions := rfl
  records := rfl
  published := rfl
  script := rfl
  beyond := rfl
  ascending := .nil
  held i := by simp [Server.Builder.build, Server.new, Held, publications]
  reflects i s h := by simp at h

theorem Tracks.verdict (h : Tracks b acts t) :
    t.server.verdict = b.verdict (publications acts) := by
  rw [Server.verdict, h.script, h.beyond, List.headD_eq_head?_getD, List.head?_drop,
    Server.Builder.verdict]

namespace Reflects

variable {s : Submission}

/-- What is done elsewhere leaves it as it is. -/
theorem concat (h : Reflects b acts i s) (hi : i < publications acts) (hcancel : a ≠ .cancel i)
    (hdrop : a ≠ .drop i) : Reflects b (acts ++ [a]) i s where
  cancelled := by simp [cancelled_concat, h.cancelled, hcancel]
  held := by simp [dropped_concat, h.held, hdrop]
  waiting hheld := h.waiting (held_of_concat hi hheld)

theorem cancel (h : Reflects b acts i s) (hi : i < publications acts) :
    Reflects b (acts ++ [.cancel i]) i (if s.held then s.cancel else s) := by
  have hwaiting := fun hheld => h.waiting (held_of_concat (a := .cancel i) hi hheld)
  by_cases hs : s.held = true
  · rw [if_pos hs]
    refine ⟨?_, ?_, hwaiting⟩
    · simp [cancelled_concat, Submission.cancel, hi, h.held.mp hs]
    · simp [dropped_concat, Submission.cancel, h.held]
  · rw [if_neg hs]
    have hdropped : Dropped i acts := Classical.not_not.mp fun hnot => hs (h.held.mpr hnot)
    refine ⟨?_, ?_, hwaiting⟩
    · simp [cancelled_concat, h.cancelled, hdropped]
    · simp [dropped_concat, h.held]

theorem poll (h : Reflects b acts i s) (hi : i < publications acts) :
    Reflects b (acts ++ [.poll i]) i (if s.held then s.poll.2 else s) := by
  have hsame := h.concat hi (a := .poll i) (by simp) (by simp)
  by_cases hs : s.held = true
  · rw [if_pos hs]
    cases hout : s.outcome? with
    | none =>
        rw [Submission.poll, hout]
        exact hsame
    | some o =>
        rw [Submission.poll, hout]
        refine ⟨hsame.cancelled, hsame.held, fun hheld => ?_⟩
        cases (hsame.waiting hheld).symm.trans (Submission.of_outcome? hout).2
  · rwa [if_neg hs]

theorem drop (h : Reflects b acts i s) (hi : i < publications acts) :
    Reflects b (acts ++ [.drop i]) i (if s.held then s.release else s) := by
  have hwaiting := fun hheld => h.waiting (held_of_concat (a := .drop i) hi hheld)
  have hdropped : Dropped i (acts ++ [.drop i]) := dropped_concat.mpr (Or.inr ⟨hi, rfl⟩)
  by_cases hs : s.held = true
  · rw [if_pos hs]
    refine ⟨?_, ?_, hwaiting⟩
    · simp [cancelled_concat, Submission.release, h.cancelled]
    · simp [Submission.release, hdropped]
  · rw [if_neg hs]
    refine ⟨?_, ?_, hwaiting⟩
    · simp [cancelled_concat, h.cancelled]
    · simp [hs, hdropped]

theorem opened (key : Jwk) (signer : SigningKey) :
    Reflects b (acts ++ [.publish key signer]) (publications acts)
      (.opened (b.verdict (publications acts)).outcome?) where
  cancelled := by
    rw [(Submission.reported_opened _).cancelled, cancelled_concat]
    simp [Submission.new, not_cancelled (Nat.le_refl (publications acts))]
  held := by
    rw [(Submission.reported_opened _).held, dropped_concat]
    simp [Submission.new, not_dropped (Nat.le_refl (publications acts))]
  waiting hheld := by
    rw [hheld.2.1]
    rfl

/-- A report changes nothing that those who await it did, and nothing is held after it. -/
theorem complete (h : Reflects b acts i s) (hi : i < publications acts) (o : Outcome) :
    Reflects b (acts ++ [.complete i o]) i (s.complete o).2 := by
  have hsame := h.concat hi (a := .complete i o) (by simp) (by simp)
  have hreported := Submission.reported_complete o s
  refine ⟨hreported.cancelled ▸ hsame.cancelled, hreported.held ▸ hsame.held, fun hheld => ?_⟩
  exact absurd rfl (held_concat_complete.mp hheld).2

end Reflects

namespace Tracks

theorem lt_of_getElem? (h : Tracks b acts t) {s : Submission} (hs : t.submissions[i]? = some s) :
    i < publications acts := by
  rw [← h.submissions]
  exact (List.getElem?_eq_some_iff.mp hs).1

/-- One argument for whatever is done with a submission by those who await its outcome. -/
theorem update (h : Tracks b acts t) {f : Submission → Submission} (hpublish : a.publishes = false)
    (hcomplete : ∀ j o, a ≠ .complete j o) (hother : ∀ j, i ≠ j → a ≠ .cancel j ∧ a ≠ .drop j)
    (hf : ∀ s, Reflects b acts i s → i < publications acts →
      Reflects b (acts ++ [a]) i (if s.held then f s else s)) :
    Tracks b (acts ++ [a]) (t.update i f) where
  submissions := by
    rw [Traffic.update, List.length_modify, publications_concat_of_not hpublish, h.submissions]
  records := by
    rw [publications_concat_of_not hpublish]
    exact h.records
  published := by
    rw [publications_concat_of_not hpublish]
    exact h.published
  script := by
    rw [publications_concat_of_not hpublish]
    exact h.script
  beyond := h.beyond
  ascending := h.ascending
  held j := by
    rw [held_concat_of_not hpublish (hcomplete j)]
    exact h.held j
  reflects j s hs := by
    rw [getElem?_update] at hs
    by_cases hj : i = j
    · subst hj
      rw [if_pos rfl] at hs
      obtain ⟨old, hold, rfl⟩ := Option.map_eq_some_iff.mp hs
      exact hf old (h.reflects i old hold) (h.lt_of_getElem? hold)
    · rw [if_neg hj] at hs
      exact (h.reflects j s hs).concat (h.lt_of_getElem? hs) (hother _ hj).1 (hother _ hj).2

theorem publish (h : Tracks b acts t) (key : Jwk) (signer : SigningKey) :
    Tracks b (acts ++ [.publish key signer]) (t.publish key signer) := by
  have hcount : publications (acts ++ [.publish key signer]) = publications acts + 1 :=
    publications_concat
  have hserver : t.server.count = publications acts := h.records
  refine ⟨?_, ?_, ?_, ?_, h.beyond, ?_, fun j => ?_, fun j s hs => ?_⟩
  · rw [hcount, ← h.submissions]
    exact List.length_append
  · rw [hcount, ← h.records]
    exact List.length_append
  · rw [hcount, ← h.published]
    rfl
  · rw [hcount]
    show t.server.script.tail = _
    rw [h.script, List.tail_drop]
  · refine Server.ascending_held_publish h.ascending fun j hj => ?_
    rw [hserver]
    exact ((h.held j).mp hj).1
  · show j ∈ (t.server.publish key signer t.submissions).2.held ↔ _
    rw [Server.mem_held_publish, held_concat_publish, h.held j, h.verdict, hserver]
    refine or_congr_right (and_congr_left fun hj => ?_)
    rw [hj]
  · have hnew : (t.submissions ++ [.opened t.server.verdict.outcome?])[j]? = some s := hs
    rw [h.verdict] at hnew
    rcases getElem?_concat_cases hnew with ⟨-, hold⟩ | ⟨rfl, rfl⟩
    · exact (h.reflects j s hold).concat (h.lt_of_getElem? hold) (by simp) (by simp)
    · rw [h.submissions]
      exact .opened key signer

theorem complete (h : Tracks b acts t) (i : Nat) (o : Outcome) :
    Tracks b (acts ++ [.complete i o]) (t.complete i o).2 := by
  have hcount : publications (acts ++ [.complete i o]) = publications acts :=
    publications_concat_of_not rfl
  by_cases hi : i ∈ t.server.held
  · obtain ⟨-, hsubmissions, hheld⟩ := Server.complete_of_held o t.submissions hi
    obtain ⟨hscript, hbeyond, hpublished⟩ := Server.complete_keeps i o t.submissions t.server
    have hrecords := Server.records_complete i o t.submissions t.server
    have hnodup : t.server.held.Nodup := h.ascending.imp Nat.ne_of_lt
    rw [complete_eq]
    refine ⟨?_, ?_, ?_, ?_, hbeyond.trans h.beyond, ?_, fun j => ?_, fun j s hs => ?_⟩
    · rw [hcount, ← h.submissions, hsubmissions, List.length_modify]
    · rw [hcount, ← h.records, hrecords]
    · rw [hcount, ← h.published, hpublished]
    · rw [hcount, ← h.script, hscript]
    · rw [hheld]
      exact h.ascending.sublist List.erase_sublist
    · rw [hheld, hnodup.mem_erase_iff, held_concat_complete, h.held j, and_comm]
    · rw [hsubmissions, List.getElem?_modify] at hs
      obtain ⟨old, hold, hs⟩ := Option.map_eq_some_iff.mp hs
      have hj := h.lt_of_getElem? hold
      by_cases hij : i = j
      · subst hij
        rw [if_pos rfl] at hs
        rw [← hs]
        exact (h.reflects i old hold).complete hj o
      · rw [if_neg hij] at hs
        rw [← hs]
        exact (h.reflects j old hold).concat hj (by simp) (by simp)
  · have hsame : (t.complete i o).2 = t := by
      rw [complete_eq, Server.complete_of_not_held hi]
    have hnot : ∀ j, Held b j acts → j ≠ i := by
      rintro j hj rfl
      exact hi ((h.held j).mpr hj)
    rw [hsame]
    refine ⟨?_, ?_, ?_, ?_, h.beyond, h.ascending, fun j => ?_, fun j s hs => ?_⟩
    · rw [hcount, h.submissions]
    · rw [hcount, h.records]
    · rw [hcount, h.published]
    · rw [hcount, h.script]
    · rw [held_concat_complete, h.held j]
      exact ⟨fun hj => ⟨hj, hnot j hj⟩, And.left⟩
    · exact (h.reflects j s hs).concat (h.lt_of_getElem? hs) (by simp) (by simp)

theorem step (h : Tracks b acts t) (a : Act) : Tracks b (acts ++ [a]) (t.step a) := by
  cases a with
  | publish key signer => exact h.publish key signer
  | cancel i => exact h.update rfl (by simp) (by simp) fun s hs hi => hs.cancel hi
  | poll i => exact h.update rfl (by simp) (by simp) fun s hs hi => hs.poll hi
  | drop i => exact h.update rfl (by simp) (by simp) fun s hs hi => hs.drop hi
  | complete i o => exact h.complete i o

end Tracks

theorem run_concat (s : Server) (acts : List Act) (a : Act) :
    run s (acts ++ [a]) = (run s acts).step a := by
  simp [run]

theorem tracks_run (b : Server.Builder) (acts : List Act) : Tracks b acts (run b.build acts) := by
  induction acts using List.reverseRecOn with
  | nil => exact tracks_nil b
  | append_singleton acts a ih =>
      rw [run_concat]
      exact ih.step a

namespace Tracks

theorem exists_submission (h : Tracks b acts t) (hheld : Held b i acts) :
    ∃ s, t.submissions[i]? = some s ∧ Reflects b acts i s := by
  have hlt : i < t.submissions.length := by
    rw [h.submissions]
    exact hheld.1
  exact ⟨_, List.getElem?_eq_getElem hlt, h.reflects i _ (List.getElem?_eq_getElem hlt)⟩

theorem accepts_iff {s : Submission} (hs : Reflects b acts i s) (hheld : Held b i acts) :
    s.accepts = true ↔ ¬ Cancelled i acts ∧ ¬ Dropped i acts := by
  simp only [Submission.accepts, hs.waiting hheld, ← hs.cancelled, ← hs.held, beq_self_eq_true,
    Bool.true_and, Bool.and_eq_true, Bool.not_eq_true', Bool.not_eq_true]

theorem delivers_iff (h : Tracks b acts t) (i : Nat) (o : Outcome) :
    (t.complete i o).1 = true ↔ Held b i acts ∧ ¬ Cancelled i acts ∧ ¬ Dropped i acts := by
  rw [complete_eq]
  by_cases hi : i ∈ t.server.held
  · have hheld := (h.held i).mp hi
    obtain ⟨s, hs, hreflects⟩ := h.exists_submission hheld
    rw [(Server.complete_of_held o t.submissions hi).1, hs, Option.any_some,
      accepts_iff hreflects hheld, and_iff_right hheld]
  · rw [Server.complete_of_not_held hi, ← h.held i]
    simp [hi]

theorem mem_heldWhere_iff (h : Tracks b acts t) {p : Submission → Bool} {q : Prop}
    (hp : ∀ s, Reflects b acts i s → (p s = true ↔ q)) :
    i ∈ t.server.heldWhere p t.submissions ↔ Held b i acts ∧ q := by
  rw [Server.mem_heldWhere, h.held i]
  refine and_congr_right fun hheld => ?_
  obtain ⟨s, hs, hreflects⟩ := h.exists_submission hheld
  simp only [hs, Option.some.injEq, exists_eq_left', hp s hreflects]

theorem mem_cancelled_iff (h : Tracks b acts t) :
    i ∈ t.server.cancelled t.submissions ↔ Held b i acts ∧ Cancelled i acts :=
  h.mem_heldWhere_iff fun _ hs => hs.cancelled

theorem mem_live_iff (h : Tracks b acts t) :
    i ∈ t.server.heldWhere (!·.cancelled) t.submissions ↔
      Held b i acts ∧ ¬ Cancelled i acts :=
  h.mem_heldWhere_iff fun s hs => by rw [← hs.cancelled, Bool.not_eq_true', Bool.not_eq_true]

theorem isCancelled?_eq (h : Tracks b acts t) (c : Bool) :
    t.server.isCancelled? i t.submissions = some c ↔
      Held b i acts ∧ (c = true ↔ Cancelled i acts) := by
  unfold Server.isCancelled?
  by_cases hi : i ∈ t.server.held
  · have hheld := (h.held i).mp hi
    obtain ⟨s, hs, hreflects⟩ := h.exists_submission hheld
    rw [if_pos (List.contains_iff_mem.mpr hi), hs, Option.map_some, Option.some.injEq,
      ← hreflects.cancelled, and_iff_right hheld]
    cases c <;> cases s.cancelled <;> simp
  · simp [hi, ← h.held i]

end Tracks

/-- A success was reported for it and that reached someone. -/
def Accepted (b : Server.Builder) (i : Nat) (acts : List Act) : Prop :=
  ∃ before after, acts = before ++ .complete i (.ok ()) :: after ∧
    ((run b.build before).complete i (.ok ())).1 = true

theorem accepted_concat : Accepted b i (acts ++ [a]) ↔ Accepted b i acts ∨
    a = .complete i (.ok ()) ∧ ((run b.build acts).complete i (.ok ())).1 = true := by
  simp only [Accepted, concat_eq_append_cons_iff]
  constructor
  · rintro ⟨before, after, ⟨rest, -, hacts⟩ | ⟨-, rfl, ha⟩, hdelivered⟩
    · exact Or.inl ⟨before, rest, hacts, hdelivered⟩
    · exact Or.inr ⟨ha, hdelivered⟩
  · rintro (⟨before, rest, hacts, hdelivered⟩ | ⟨ha, hdelivered⟩)
    · exact ⟨before, rest ++ [a], Or.inl ⟨rest, rfl, hacts⟩, hdelivered⟩
    · exact ⟨acts, [], Or.inr ⟨rfl, rfl, ha⟩, hdelivered⟩

theorem lt_of_accepted (h : Accepted b i acts) : i < publications acts := by
  obtain ⟨before, after, rfl, hdelivered⟩ := h
  have hlt := (((tracks_run b before).delivers_iff i (.ok ())).mp hdelivered).1.1
  rw [publications, List.countP_append]
  exact Nat.lt_of_lt_of_le hlt (Nat.le_add_right _ _)

theorem records_step_of_not (t : Traffic) (h : a.publishes = false) :
    (t.step a).server.records = t.server.records := by
  cases a with
  | publish key signer => cases h
  | cancel i | poll i | drop i => rfl
  | complete i o => exact Server.records_complete i o t.submissions t.server

/-- A record says what the server saw when it took the publication. -/
theorem records_run (b : Server.Builder) (acts : List Act) {r : Server.Record}
    (hr : (run b.build acts).server.records[i]? = some r) :
    ∃ key signer before after, acts = before ++ .publish key signer :: after ∧
      publications before = i ∧
      r = (run b.build before).server.inspect key signer (run b.build before).submissions := by
  induction acts using List.reverseRecOn with
  | nil => cases hr
  | append_singleton acts a ih =>
      rw [run_concat] at hr
      have hearlier (hold : (run b.build acts).server.records[i]? = some r) :
          ∃ key signer before after, acts ++ [a] = before ++ .publish key signer :: after ∧
            publications before = i ∧ r = (run b.build before).server.inspect key signer
              (run b.build before).submissions := by
        obtain ⟨key, signer, before, after, hacts, hi, hr⟩ := ih hold
        exact ⟨key, signer, before, after ++ [a], by simp [hacts], hi, hr⟩
      by_cases ha : a.publishes = false
      · rw [records_step_of_not _ ha] at hr
        exact hearlier hr
      · obtain ⟨key, signer, rfl⟩ : ∃ key signer, a = .publish key signer := by
          cases a with
          | publish key signer => exact ⟨key, signer, rfl⟩
          | _ => exact absurd rfl ha
        have hrecords : (run b.build acts).server.records.length = publications acts :=
          (tracks_run b acts).records
        have hnew : ((run b.build acts).server.records ++
            [(run b.build acts).server.inspect key signer (run b.build acts).submissions])[i]? =
              some r := hr
        rcases getElem?_concat_cases hnew with ⟨-, hold⟩ | ⟨rfl, rfl⟩
        · exact hearlier hold
        · exact ⟨key, signer, acts, [], rfl, hrecords.symm, rfl⟩

/-- A publication of the key was answered with a success, at once or later. -/
def Vouched (b : Server.Builder) (acts : List Act) (records : List Server.Record) (id : String) :
    Prop :=
  ∃ i r, records[i]? = some r ∧ r.key = id ∧ (r.verdict = .succeed ∨ Accepted b i acts)

section Vouched

variable {records : List Server.Record} {id : String}

theorem vouched_concat_of_not (hcomplete : ∀ i o, a ≠ .complete i o) :
    Vouched b (acts ++ [a]) records id ↔ Vouched b acts records id := by
  simp [Vouched, accepted_concat, hcomplete]

theorem vouched_concat_record (hlength : records.length = publications acts) (r : Server.Record) :
    Vouched b acts (records ++ [r]) id ↔
      Vouched b acts records id ∨ r.verdict = .succeed ∧ id = r.key := by
  constructor
  · rintro ⟨i, found, hfound, hkey, hcause⟩
    rcases getElem?_concat_cases hfound with ⟨-, hold⟩ | ⟨rfl, rfl⟩
    · exact Or.inl ⟨i, found, hold, hkey, hcause⟩
    · -- Nothing was reported for a publication before it was made.
      have hnot : ¬ Accepted b records.length acts := fun haccepted =>
        Nat.ne_of_lt (lt_of_accepted haccepted) hlength
      exact Or.inr ⟨hcause.resolve_right hnot, hkey.symm⟩
  · rintro (⟨i, found, hfound, hkey, hcause⟩ | ⟨hverdict, rfl⟩)
    · have hi := (List.getElem?_eq_some_iff.mp hfound).1
      exact ⟨i, found, by rwa [List.getElem?_append_left hi], hkey, hcause⟩
    · exact ⟨records.length, r, List.getElem?_concat_length, rfl, Or.inl hverdict⟩

theorem vouched_concat_complete {j : Nat} {o : Outcome} :
    Vouched b (acts ++ [.complete j o]) records id ↔ Vouched b acts records id ∨
      ((run b.build acts).complete j o).1 = true ∧ o = .ok () ∧
        ∃ r, records[j]? = some r ∧ id = r.key := by
  simp only [Vouched, accepted_concat, Act.complete.injEq]
  constructor
  · rintro ⟨i, r, hr, hkey, hverdict | haccepted | ⟨⟨rfl, rfl⟩, hdelivered⟩⟩
    · exact Or.inl ⟨i, r, hr, hkey, Or.inl hverdict⟩
    · exact Or.inl ⟨i, r, hr, hkey, Or.inr haccepted⟩
    · exact Or.inr ⟨hdelivered, rfl, r, hr, hkey.symm⟩
  · rintro (⟨i, r, hr, hkey, hverdict | haccepted⟩ | ⟨hdelivered, rfl, r, hr, hkey⟩)
    · exact ⟨i, r, hr, hkey, Or.inl hverdict⟩
    · exact ⟨i, r, hr, hkey, Or.inr (Or.inl haccepted)⟩
    · exact ⟨j, r, hr, hkey.symm, Or.inr (Or.inr ⟨⟨rfl, rfl⟩, hdelivered⟩)⟩

end Vouched

theorem isTrusted_run (b : Server.Builder) (acts : List Act) (id : String) :
    (run b.build acts).server.isTrusted id = true ↔
      Vouched b acts (run b.build acts).server.records id := by
  induction acts using List.reverseRecOn with
  | nil => simp [run, Server.Builder.build, Server.new, Server.isTrusted, Vouched]
  | append_singleton acts a ih =>
      rw [run_concat]
      cases a with
      | publish key signer =>
          have hlength := (tracks_run b acts).records
          have hstep : Server.isTrusted id ((run b.build acts).publish key signer).server = true ↔
              Server.isTrusted id (run b.build acts).server = true ∨
                (run b.build acts).server.verdict = .succeed ∧ id = key.kid :=
            Server.isTrusted_publish
          have hrecords : ((run b.build acts).step (.publish key signer)).server.records =
              (run b.build acts).server.records ++
                [(run b.build acts).server.inspect key signer (run b.build acts).submissions] :=
            rfl
          rw [hrecords, vouched_concat_of_not (by simp), vouched_concat_record hlength]
          exact hstep.trans (or_congr_left ih)
      | complete j o =>
          have hstep : Server.isTrusted id ((run b.build acts).complete j o).2.server = true ↔
              Server.isTrusted id (run b.build acts).server = true ∨
                ((run b.build acts).complete j o).1 = true ∧ o = .ok () ∧
                  ∃ r, (run b.build acts).server.records[j]? = some r ∧ id = r.key :=
            Server.isTrusted_complete
          rw [records_step_of_not _ rfl]
          exact hstep.trans ((or_congr_left ih).trans vouched_concat_complete.symm)
      | cancel j | poll j | drop j => exact ih.trans (vouched_concat_of_not (by simp)).symm

/-- What the record with the number `i` says of the publication it is about and of the moment at
which the server took it. -/
structure Recorded (b : Server.Builder) (acts : List Act) (i : Nat) (r : Server.Record) : Prop where
  index : r.index = i
  verdict : r.verdict = b.verdict i
  moment : ∃ key signer before after, acts = before ++ .publish key signer :: after ∧
    publications before = i ∧ r.key = key.kid ∧ r.signer = signer.id ∧
    r.live.Pairwise (· < ·) ∧ (∀ j, j ∈ r.live ↔ Held b j before ∧ ¬ Cancelled j before) ∧
    (r.trusted = true ↔
      signer.id = key.kid ∨ (run b.build before).server.isTrusted signer.id = true)

structure Books (b : Server.Builder) (acts : List Act) (t : Traffic) : Prop where
  published : t.server.published = t.server.records.length
  length : t.server.records.length = publications acts
  recorded : ∀ i r, t.server.records[i]? = some r → Recorded b acts i r
  delivers : ∀ i o, (t.complete i o).1 = true ↔
    Held b i acts ∧ ¬ Cancelled i acts ∧ ¬ Dropped i acts
  once : ∀ i o before after, acts = before ++ .complete i o :: after →
    ((run b.build before).complete i o).1 = true → ∀ o', (t.complete i o').1 = false
  trusted : ∀ id, t.server.isTrusted id = true ↔ Vouched b acts t.server.records id
  ascending : (t.server.cancelled t.submissions).Pairwise (· < ·)
  cancelled : ∀ i, i ∈ t.server.cancelled t.submissions ↔ Held b i acts ∧ Cancelled i acts
  isCancelled : ∀ i c, t.server.isCancelled? i t.submissions = some c ↔
    Held b i acts ∧ (c = true ↔ Cancelled i acts)

theorem recorded_run {r : Server.Record} (hr : (run b.build acts).server.records[i]? = some r) :
    Recorded b acts i r := by
  obtain ⟨key, signer, before, after, hacts, hi, rfl⟩ := records_run b acts hr
  have h := tracks_run b before
  have htrusted : (signer.id == key.kid || (run b.build before).server.isTrusted signer.id) =
      true ↔ signer.id = key.kid ∨ (run b.build before).server.isTrusted signer.id = true := by
    rw [Bool.or_eq_true, beq_iff_eq]
  exact ⟨h.records.trans hi, hi ▸ h.verdict, key, signer, before, after, hacts, hi, rfl, rfl,
    h.ascending.filter _, fun j => h.mem_live_iff, htrusted⟩

theorem completed_of_delivers {o : Outcome} {before after : List Act}
    (h : ((run b.build before).complete i o).1 = true) :
    Completed i (before ++ .complete i o :: after) := by
  have hlt := (((tracks_run b before).delivers_iff i o).mp h).1.1
  have hnow : Completed i (before ++ [.complete i o]) :=
    completed_concat.mpr (Or.inr ⟨hlt, o, rfl⟩)
  rw [List.append_cons]
  exact completed_append hnow after

/-- The books of a server say what was done with it, in whatever order that was. -/
theorem books_run (b : Server.Builder) (acts : List Act) : Books b acts (run b.build acts) := by
  have h := tracks_run b acts
  exact
    { published := h.published.trans h.records.symm
      length := h.records
      recorded := fun i r hr => recorded_run hr
      delivers := h.delivers_iff
      once := by
        rintro i o before after rfl hdelivered o'
        refine Bool.eq_false_iff.mpr fun hagain => ?_
        exact ((h.delivers_iff i o').mp hagain).1.2.2 (completed_of_delivers hdelivered)
      trusted := isTrusted_run b acts
      ascending := h.ascending.filter _
      cancelled := fun i => h.mem_cancelled_iff
      isCancelled := fun i => h.isCancelled?_eq }

end Keyring.Traffic
