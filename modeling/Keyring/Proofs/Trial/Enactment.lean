import Keyring.Trial

namespace Keyring

section

variable [Scheme]

/-- What becomes of an attempt whose outcome is there at once. -/
inductive Fate
  | keyless (e : KeyError)
  | submitted (k : SigningKey) (o : Outcome)

namespace Fate

def key? : Fate → Option SigningKey
  | .keyless _ => none
  | .submitted k _ => some k

def outcome : Fate → Outcome
  | .keyless e => .error (.keyGeneration e.message)
  | .submitted _ o => o

def Fails (f : Fate) : Prop := ∃ e, f.outcome = .error e

def item : Fate → Generator.Item
  | .keyless e => .given (.error e)
  | .submitted k _ => .given (.ok k)

def verdict? : Fate → Option Server.Verdict
  | .keyless _ => none
  | .submitted _ (.ok _) => some .succeed
  | .submitted _ (.error .abandoned) => some .abandon
  | .submitted _ (.error e) => some (.fail e)

theorem exists_verdict (k : SigningKey) (o : Outcome) :
    ∃ v, (submitted k o).verdict? = some v ∧ v.outcome? = some o := by
  cases o with
  | ok _ => exact ⟨.succeed, rfl, rfl⟩
  | error e => cases e <;> exact ⟨_, rfl, rfl⟩

end Fate

/-- The attempts in this world have these fates, one after the other. After so many attempts the
world is as the last condition says. -/
structure World.Plays {ω : Type} (w : World ω) (fates : Nat → Fate) (after : Nat → ω → Prop) :
    Prop where
  keyless : ∀ {n world e}, after n world → fates n = .keyless e →
    ∃ world', w.draw world = (.failed e, world') ∧ after (n + 1) world'
  submitted : ∀ {n world k o}, after n world → fates n = .submitted k o →
    ∃ between, w.draw world = (.key k, between) ∧ ∀ signer submissions,
      ∃ world', w.publish k.jwk signer submissions between = (.accepted (some o), world') ∧
        after (n + 1) world'

namespace Trial

/-- A trial in which the first attempts have these fates. The others succeed. -/
def enacting (fates : List Fate) : Trial Generator :=
  ⟨.scriptOf (fates.map Fate.item), .new (fates.filterMap Fate.verdict?) .succeed⟩

/-- The number of the key that this attempt gets, if it comes after all of these. -/
def laterNumber (fates : List Fate) (n : Nat) : UInt8 :=
  Generator.first + UInt8.ofNat (n - fates.length)

def fate (fates : List Fate) (n : Nat) : Fate :=
  fates[n]?.getD (.submitted (.numbered (laterNumber fates n)) (.ok ()))

structure Enacts (fates : List Fate) (n : Nat) (t : Trial Generator) : Prop where
  generator : t.generator = .scripted ((fates.drop n).map Fate.item) (laterNumber fates n)
  script : t.server.script = (fates.drop n).filterMap Fate.verdict?
  otherwise : t.server.otherwise = .succeed

theorem enacts_enacting (fates : List Fate) : Enacts fates 0 (enacting fates) where
  generator := by simp [enacting, laterNumber, Generator.scriptOf]
  script := rfl
  otherwise := rfl

theorem laterNumber_succ_of_lt {fates : List Fate} {n : Nat} (h : n < fates.length) :
    laterNumber fates (n + 1) = laterNumber fates n := by
  rw [laterNumber, laterNumber, Nat.sub_eq_zero_of_le h, Nat.sub_eq_zero_of_le (Nat.le_of_lt h)]

theorem laterNumber_succ_of_le {fates : List Fate} {n : Nat} (h : fates.length ≤ n) :
    laterNumber fates (n + 1) = laterNumber fates n + 1 := by
  rw [laterNumber, laterNumber, Nat.succ_sub h, Nat.succ_eq_add_one, UInt8.ofNat_add,
    ← UInt8.add_assoc]
  rfl

namespace Enacts

variable {fates : List Fate} {n : Nat} {t : Trial Generator}

/-- What the generator and the server answer to the next attempt, and what they are left with. -/
theorem answers (h : Enacts fates n t) :
    t.generator.draw.2 =
      .scripted ((fates.drop (n + 1)).map Fate.item) (laterNumber fates (n + 1)) ∧
    ((∃ e, fate fates n = .keyless e ∧ t.generator.draw.1 = .failed e ∧
        t.server.script = (fates.drop (n + 1)).filterMap Fate.verdict?) ∨
      ∃ k o, fate fates n = .submitted k o ∧ t.generator.draw.1 = .key k ∧
        t.server.verdict.outcome? = some o ∧
        t.server.script.tail = (fates.drop (n + 1)).filterMap Fate.verdict?) := by
  have hgenerator := h.generator
  have hscript := h.script
  by_cases hn : n < fates.length
  · have hfate : fate fates n = fates[n] := by simp [fate, hn]
    rw [List.drop_eq_getElem_cons hn] at hgenerator hscript
    rw [hgenerator, laterNumber_succ_of_lt hn, hfate]
    cases hnext : fates[n] with
    | keyless e =>
        rw [hnext] at hscript
        exact ⟨rfl, Or.inl ⟨e, rfl, rfl, hscript⟩⟩
    | submitted k o =>
        obtain ⟨v, hv, houtcome⟩ := Fate.exists_verdict k o
        rw [hnext, List.filterMap_cons_some hv] at hscript
        refine ⟨rfl, Or.inr ⟨k, o, rfl, rfl, ?_, ?_⟩⟩
        · rw [Server.verdict, hscript]
          exact houtcome
        · rw [hscript]
          rfl
  · have hle : fates.length ≤ n := Nat.le_of_not_lt hn
    have hfate : fate fates n = .submitted (.numbered (laterNumber fates n)) (.ok ()) := by
      simp [fate, hle]
    rw [List.drop_eq_nil_of_le hle] at hgenerator hscript
    rw [List.drop_eq_nil_of_le (Nat.le_succ_of_le hle), hgenerator, laterNumber_succ_of_le hle,
      hfate]
    refine ⟨rfl, Or.inr ⟨_, _, rfl, rfl, ?_, ?_⟩⟩
    · rw [Server.verdict, hscript]
      exact congrArg Server.Verdict.outcome? h.otherwise
    · rw [hscript]
      rfl

end Enacts

/-- Whatever the first attempts are to come to, there is a trial in which they do. -/
theorem plays_fate (fates : List Fate) (escalate : PublishError → Escalation) :
    (world Generator.draw [] escalate).Plays (fate fates) (Enacts fates) where
  keyless {n t e} h hfate := by
    obtain ⟨hgenerator, ⟨e', he', hdraw, hscript⟩ | ⟨k, o, hko, -⟩⟩ := h.answers
    · obtain rfl := Fate.keyless.inj (hfate.symm.trans he')
      refine ⟨{ t with generator := t.generator.draw.2 }, ?_, hgenerator, hscript, h.otherwise⟩
      exact Prod.ext hdraw rfl
    · cases hfate.symm.trans hko
  submitted {n t k o} h hfate := by
    obtain ⟨hgenerator, ⟨e, he, -⟩ | ⟨k', o', hko, hdraw, hverdict, hscript⟩⟩ := h.answers
    · cases hfate.symm.trans he
    · obtain ⟨rfl, rfl⟩ := Fate.submitted.inj (hfate.symm.trans hko)
      refine ⟨{ t with generator := t.generator.draw.2 }, Prod.ext hdraw rfl, ?_⟩
      intro signer submissions
      exact ⟨_, congrArg (fun o => (Reply.accepted o, _)) hverdict, hgenerator, hscript,
        h.otherwise⟩

end Trial

end

end Keyring
