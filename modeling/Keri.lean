import Keri.Lib.Outcome
import Keri.Lib.Machine
import Keri.Lib.Log
import Keri.Lib.Reader
import Keri.Lib.Table
import Keri.Lib.Checked
import Keri.Lib.Fraction
import Keri.Text
import Keri.Value
import Keri.Errors
import Keri.Store
import Keri.Externals
import Keri.EventLogs
import Keri.Crypto
import Keri.Version
import Keri.Threshold
import Keri.Weights
import Keri.Said
import Keri.Serder
import Keri.Toy
import Keri.Event
import Keri.KeyState
import Keri.Delegation
import Keri.Kever
import Keri.Kel
import Keri.PreRotation
import Keri.SaidBinding
import Keri.SaidContent
import Keri.Parser
import Keri.Composer
import Keri.ParserStream
import Keri.ParserGroups
import Keri.Direct
import Keri.StoredBodies
import Keri.Judge
import Keri.Tracking
import Keri.FirstSeen
import Keri.InStep
import Keri.Agreement
import Keri.Admissions
import Keri.Duplicity
import Keri.Replay
import Keri.Restart
import Keri.Hab
import Keri.Resume
import Keri.Habery
import Keri.Records
import Keri.Sealing
import Keri.VersionField
import Keri.VersionGrammar
import Keri.WitnessConfig
import Keri.Signing
import Keri.Emission
import Keri.Evidence
import Keri.RoundTrips
import Keri.Flagging
import Keri.Generations
import Keri.WitnessReceipts
import Keri.ReadBack
import Keri.ParsedComposition
import Keri.InsideInput
import Keri.SealSource
import Keri.Isolation
import Keri.Strictness
import Keri.Escrow
import Keri.Lineage
import Keri.Receipts
import Keri.Readable
import Keri.Backers
import Keri.NonTransferable
import Keri.Frozen
import Keri.Promotion
import Keri.Vetting
import Keri.FastPaths
import Keri.ReceiptsKept
import Keri.SignatureGroups
import Keri.KelView
import Keri.ThresholdEncoding
import Keri.Lib.BigEndian
import Keri.Lib.Replica
import Keri.Lib.Quorum
import Keri.Lib.Simulation
import Keri.Heard
import Keri.Convergence
import Keri.Witnessed
import Keri.Mirror
import Keri.Transcript
import Keri.Forgery
import Keri.Authority
import Keri.Accountability
import Keri.Names
