import Keyring.SigningKey
import Keyring.Submission

namespace Keyring

variable [Scheme]

namespace Server

inductive Verdict
  | succeed
  | fail (e : PublishError)
  | hold
  | abandon
  deriving DecidableEq, Repr

def Verdict.outcome? : Verdict → Option Outcome
  | .succeed => some (.ok ())
  | .fail e => some (.error e)
  | .hold => none
  | .abandon => some (.error .abandoned)

structure Record where
  index : Nat
  key : String
  signer : String
  selfSigned : Bool
  valid : Bool
  /-- The key vouched for itself or the server had accepted the signer before. -/
  trusted : Bool
  /-- The publications it still held at the time, those cancelled left out. -/
  live : List Nat
  verdict : Verdict
  deriving DecidableEq, Repr

end Server

/-- A key server for trials. It answers by a script, checks who vouches for a key, and holds
publications until it is told their outcome. -/
structure Server where
  script : List Server.Verdict
  otherwise : Server.Verdict
  records : List Server.Record
  held : List Nat
  accepted : List String
  /-- How many publications it has announced to those who wait for them. -/
  published : Nat
  deriving Repr

namespace Server

def new (script : List Verdict) (otherwise : Verdict) : Server :=
  ⟨script, otherwise, [], [], [], 0⟩

/-- A server to be: its script so far, and what it answers beyond the script, if that was said. -/
structure Builder where
  script : List Verdict
  beyond? : Option Verdict

namespace Builder

def empty : Builder := ⟨[], none⟩

def andThen (v : Verdict) (b : Builder) : Builder := { b with script := b.script ++ [v] }

def otherwise (v : Verdict) (b : Builder) : Builder := { b with beyond? := some v }

def beyond (b : Builder) : Verdict := b.beyond?.getD .succeed

def build (b : Builder) : Server := .new b.script b.beyond

end Builder

def succeeding : Server := (Builder.empty.otherwise .succeed).build

def failing (e : PublishError) : Server := (Builder.empty.otherwise (.fail e)).build

def holding : Server := (Builder.empty.otherwise .hold).build

def count (s : Server) : Nat := s.records.length

def isTrusted (id : String) (s : Server) : Bool := s.accepted.contains id

def heldWhere (p : Submission → Bool) (submissions : Submissions) (s : Server) : List Nat :=
  s.held.filter fun i => submissions[i]?.any p

def cancelled (submissions : Submissions) (s : Server) : List Nat :=
  s.heldWhere (·.cancelled) submissions

def isCancelled? (i : Nat) (submissions : Submissions) (s : Server) : Option Bool :=
  if s.held.contains i then submissions[i]?.map (·.cancelled) else none

def verdict (s : Server) : Verdict := s.script.headD s.otherwise

def inspect (key : Jwk) (signer : SigningKey) (submissions : Submissions) (s : Server) : Record :=
  let selfSigned := signer.id == key.kid
  { index := s.count
    key := key.kid
    signer := signer.id
    selfSigned
    valid := signer.jwk.verify key.signingInput (signer.sign key.signingInput)
    trusted := selfSigned || s.isTrusted signer.id
    live := s.heldWhere (!·.cancelled) submissions
    verdict := s.verdict }

/-- Takes a publication; the outcome is there at once unless it is held. The submission gets the
next number. -/
def publish (key : Jwk) (signer : SigningKey) (submissions : Submissions) (s : Server) :
    Option Outcome × Server :=
  let record := s.inspect key signer submissions
  (record.verdict.outcome?,
    { s with
      script := s.script.tail
      records := s.records ++ [record]
      held := if record.verdict = .hold then s.held ++ [s.count] else s.held
      accepted := if record.verdict = .succeed then record.key :: s.accepted else s.accepted
      published := s.published + 1 })

/-- Reports the outcome of a publication it holds, and holds it no longer. Tells whether that
reached anyone; only then a success makes the key accepted. -/
def complete (i : Nat) (outcome : Outcome) (submissions : Submissions) (s : Server) :
    Bool × Submissions × Server :=
  if s.held.contains i then
    let delivered := submissions[i]?.any Submission.accepts
    let accepted :=
      match s.records[i]? with
      | some record =>
          if delivered && outcome = .ok () then record.key :: s.accepted else s.accepted
      | none => s.accepted
    (delivered, submissions.modify i fun t => (t.complete outcome).2,
      { s with held := s.held.erase i, accepted })
  else (false, submissions, s)

end Server

end Keyring
