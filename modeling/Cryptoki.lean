import Cryptoki.Application
import Cryptoki.Bytes.Lemmas
import Cryptoki.Json.Form
import Cryptoki.Modular.Lemmas
import Cryptoki.Token.Recorded
import Cryptoki.Token.Scripted
import Cryptoki.Token.Software
import Cryptoki.Proofs.Application.Agreement
import Cryptoki.Proofs.Engine.Cycle
import Cryptoki.Proofs.Pool.Accounts
import Cryptoki.Proofs.Bytes
import Cryptoki.Proofs.Der
import Cryptoki.Proofs.SignatureValue
import Cryptoki.Proofs.SignatureValue.Block
import Cryptoki.Proofs.Digest.Length
import Cryptoki.Proofs.DigestInfo
import Cryptoki.Proofs.Engine.Binding
import Cryptoki.Proofs.Engine.Finish
import Cryptoki.Proofs.Engine.Reach
import Cryptoki.Proofs.Engine.Report
import Cryptoki.Proofs.Token.Keys
import Cryptoki.Proofs.Token.Discipline
import Cryptoki.Proofs.Token.Mechanisms
import Cryptoki.Proofs.Token.Parts
import Cryptoki.Proofs.Token.ScalarPair
import Cryptoki.Proofs.Token.Signing
import Cryptoki.Proofs.Engine.Serving
import Cryptoki.Proofs.Application.Messages
import Cryptoki.Proofs.Rsa
import Cryptoki.Proofs.Application.RoundTrip
import Cryptoki.Proofs.Application.Interchange
import Cryptoki.Proofs.Engine.Implicit
import Cryptoki.Proofs.Application.Isolation
import Cryptoki.Proofs.Application.Verdicts
import Cryptoki.Proofs.Engine.Faults
import Cryptoki.Proofs.Engine.Refusal
import Cryptoki.Proofs.Engine.Gathered
import Cryptoki.Proofs.Application.Cancelling
import Cryptoki.Proofs.Engine.DsaBlocks
import Cryptoki.Proofs.Application.Leases
import Cryptoki.Proofs.Engine.FinishAtRest
import Cryptoki.Proofs.Pool.Housed
import Cryptoki.Proofs.Application.Restart
import Cryptoki.Proofs.Engine.LostSession
import Cryptoki.Proofs.Application.Recycling
import Cryptoki.Proofs.KeyAcceptance
import Cryptoki.Proofs.Engine.Spared
import Cryptoki.Proofs.PendingInput.Record
import Cryptoki.Proofs.Key
