import Keyring.Attempt
import Keyring.Base64Url
import Keyring.Bytes
import Keyring.Duration
import Keyring.Ed25519
import Keyring.Ed25519.Field
import Keyring.Ed25519.Point
import Keyring.Ed25519.Signature
import Keyring.Error
import Keyring.Exchange
import Keyring.Generator
import Keyring.Hash.Sha2
import Keyring.Journal
import Keyring.Json.Members
import Keyring.Json.Number
import Keyring.Json.Reader
import Keyring.Json.Scan
import Keyring.Json.Skip
import Keyring.Json.Text
import Keyring.Json.Tree
import Keyring.Json.Value
import Keyring.Jwk
import Keyring.Jwk.Reader
import Keyring.Metrics
import Keyring.Number.Binary64
import Keyring.Number.Shortest
import Keyring.Pkcs8
import Keyring.Pkcs8.Der
import Keyring.Proofs.Attempt
import Keyring.Proofs.Base64Url
import Keyring.Proofs.Custody
import Keyring.Proofs.Except
import Keyring.Proofs.Exchange
import Keyring.Proofs.Generator
import Keyring.Proofs.Json.Fields
import Keyring.Proofs.Json.Grammar
import Keyring.Proofs.Json.Members
import Keyring.Proofs.Json.Nesting
import Keyring.Proofs.Json.Number
import Keyring.Proofs.Json.Numeral
import Keyring.Proofs.Json.Reading
import Keyring.Proofs.Json.Skip
import Keyring.Proofs.Json.Text
import Keyring.Proofs.Json.Tree
import Keyring.Proofs.Json.Value
import Keyring.Proofs.Jwk
import Keyring.Proofs.Jwk.Acceptance
import Keyring.Proofs.Pkcs8
import Keyring.Proofs.Pkcs8.Der
import Keyring.Proofs.Pkcs8.Loading
import Keyring.Proofs.Rotation.Accounts
import Keyring.Proofs.Rotation.ActiveKey
import Keyring.Proofs.Rotation.Backoff
import Keyring.Proofs.Rotation.Chronicle
import Keyring.Proofs.Rotation.Counters
import Keyring.Proofs.Rotation.Crash
import Keyring.Proofs.Rotation.Ending
import Keyring.Proofs.Rotation.FailStop
import Keyring.Proofs.Rotation.FirstKey
import Keyring.Proofs.Rotation.Machine
import Keyring.Proofs.Rotation.Outlook
import Keyring.Proofs.Rotation.Posture
import Keyring.Proofs.Rotation.Reaction
import Keyring.Proofs.Rotation.Readiness
import Keyring.Proofs.Rotation.Retries
import Keyring.Proofs.Rotation.Run
import Keyring.Proofs.Rotation.Serving
import Keyring.Proofs.Rotation.SingleAttempt
import Keyring.Proofs.Rotation.Statuses
import Keyring.Proofs.Rotation.Step
import Keyring.Proofs.Rotation.Stop
import Keyring.Proofs.Rotation.Succession
import Keyring.Proofs.Rotation.Supersession
import Keyring.Proofs.Rotation.Tenure
import Keyring.Proofs.Rotation.Unscheduled
import Keyring.Proofs.Server
import Keyring.Proofs.Settings.Construction
import Keyring.Proofs.Settings.Environment
import Keyring.Proofs.SigningKey
import Keyring.Proofs.Submission
import Keyring.Proofs.Text.Decimal
import Keyring.Proofs.Thumbprint
import Keyring.Proofs.Token
import Keyring.Proofs.Token.Claims
import Keyring.Proofs.Token.EmbeddedKey
import Keyring.Proofs.Token.Header
import Keyring.Proofs.Token.Verification
import Keyring.Proofs.Traffic.Bookkeeping
import Keyring.Proofs.Traffic.History
import Keyring.Proofs.Trial.Agreement
import Keyring.Proofs.Trial.Enactment
import Keyring.Proofs.Trial.LateAnswers
import Keyring.Proofs.Trial.Run
import Keyring.Proofs.Trial.Service
import Keyring.Proofs.Trial.Succession
import Keyring.Proofs.Trial.TrustChain
import Keyring.Rotation.Clock
import Keyring.Rotation.Loop
import Keyring.Rotation.Notice
import Keyring.Rotation.Ownership
import Keyring.Rotation.Status
import Keyring.Rotation.Timer
import Keyring.Rotation.View
import Keyring.Scheme
import Keyring.Server
import Keyring.Service
import Keyring.Settings
import Keyring.Settings.Environment
import Keyring.SigningKey
import Keyring.Slots
import Keyring.Submission
import Keyring.Text.Blank
import Keyring.Text.Decimal
import Keyring.Text.Hidden
import Keyring.Text.Quoted
import Keyring.Token
import Keyring.Token.Algorithm
import Keyring.Token.Claims
import Keyring.Token.EmbeddedKey
import Keyring.Token.Header
import Keyring.Traffic
import Keyring.Trial
