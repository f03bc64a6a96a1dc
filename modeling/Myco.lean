import Myco.Canonical.Agree
import Myco.Canonical.Cursor
import Myco.Canonical.Decode
import Myco.Canonical.Encode
import Myco.Canonical.Grammar
import Myco.Canonical.Length
import Myco.Canonical.MapGet
import Myco.Canonical.Meaning
import Myco.Canonical.Parity
import Myco.Canonical.Python
import Myco.Canonical.RoundTrip
import Myco.Canonical.Size
import Myco.Canonical.Standing
import Myco.Canonical.TypeScript
import Myco.Canonical.Value
import Myco.Consensus.Votes
import Myco.Federation.Peers
import Myco.Lib.Ballots
import Myco.Lib.Bytes
import Myco.Lib.Files
import Myco.Lib.Grounded
import Myco.Lib.Index
import Myco.Lib.Leb128
import Myco.Lib.Loop
import Myco.Lib.OrdMap
import Myco.Lib.Replay
import Myco.Lib.Search
import Myco.Lib.Text
import Myco.Lib.Within
import Myco.Prune.OneTombstone
import Myco.Prune.Rules
import Myco.Prune.Scan
import Myco.Prune.Selected
import Myco.Prune.Spared
import Myco.Schema.Dag
import Myco.Schema.DagPersist
import Myco.Schema.DagTamper
import Myco.Schema.Ledger
import Myco.Substrate.DerivedState
import Myco.Substrate.Events
import Myco.Substrate.SigningKey
import Myco.Substrate.Snapshot
import Myco.Federation.Events
import Myco.Consensus.Tally
import Myco.Consensus.CertSound
import Myco.Lib.SwapRemove
import Myco.Federation.Connections
import Myco.Federation.Admissions
import Myco.Federation.Handshakes
import Myco.Federation.Sweeps
import Myco.Lib.Grows
import Myco.Substrate.Tips
import Myco.Substrate.Plates
import Myco.Substrate.Absorption
import Myco.Federation.Batch
import Myco.Federation.Pull
import Myco.Substrate.Additions
import Myco.Consensus.Floor
import Myco.Federation.Handlers
import Myco.Consensus.Handlers
import Myco.Consensus.Frame
import Myco.Federation.Changes
import Myco.Consensus.Run
import Myco.Consensus.Peering
import Myco.Consensus.FloorLog
import Myco.Consensus.PinLog
import Myco.Consensus.Impostors
import Myco.Consensus.FloorSound
import Myco.Consensus.Pins
import Myco.Consensus.Counted
import Myco.Consensus.Minted
import Myco.Federation.Private
import Myco.Consensus.Arrivals
import Myco.Federation.Repull
import Myco.Federation.Serving
import Myco.Federation.Relays
import Myco.Substrate.Ingest
import Myco.Bridge.Frames
import Myco.Federation.BatchSize
import Myco.Federation.Sync
import Myco.Bridge.Timing
import Myco.Bridge.Reads
import Myco.Federation.Exchange
import Myco.Lib.Layers
import Myco.Consensus.Rounds
import Myco.Consensus.Convergence
import Myco.Canonical.Renderer
import Myco.Operator.Wire
import Myco.Operator.SubstrateClient
import Myco.Operator.Answers
import Myco.Controller.Client
import Myco.Controller.Pairing
import Myco.Lib.Literals
import Myco.Tropism.Gradient
import Myco.Tropism.Worker
import Myco.Tropism.Evolution
import Myco.Tropism.Watch
import Myco.Tropism.Host
import Myco.Tropism.Cycle
import Myco.Tropism.Migration
import Myco.Substrate.AtRest
import Myco.Substrate.ChangedKey
import Myco.Substrate.ClockTraces
import Myco.Substrate.DagFile
import Myco.Substrate.ImmuneAccounts
import Myco.Canonical.RendererReads
import Myco.Canonical.Inverse
import Myco.Tropism.Declarations
import Myco.Tropism.Mutations
import Myco.Tropism.Revocations
import Myco.Tropism.Requests
import Myco.Tropism.Replay
import Myco.Tropism.Run
import Myco.Tropism.Hydration
import Myco.Tropism.Rulings
import Myco.Tropism.Marks
import Myco.Tropism.Brackets
import Myco.Tropism.MigrationLog
import Myco.Tropism.Compression
import Myco.Tropism.Deeds
import Myco.Tropism.Objects
import Myco.Tropism.Performing
import Myco.Tropism.Windows
import Myco.Tropism.Proposals
import Myco.Tropism.Quarantine
import Myco.Reproduction.Cosign
import Myco.Reproduction.Sprout
import Myco.Reproduction.Child
import Myco.Reproduction.Discipline
import Myco.Reproduction.Births
import Myco.Substrate.Integrity
import Myco.Substrate.KeyBoot
import Myco.Substrate.Laying
import Myco.Schema.Enumeration
import Myco.Substrate.Torn
import Myco.Substrate.Deposit
import Myco.Substrate.Supersession
import Myco.Prune.Reachability
import Myco.Canonical.Overflow
import Myco.Bridge.Chunks
import Myco.Canonical.PythonReread
import Myco.Tropism.Persistence
import Myco.Tropism.Backfill
import Myco.Tropism.Retry
import Myco.Tropism.Rounds
import Myco.Tropism.Plays
import Myco.Tropism.Strides
import Myco.Tropism.Spans
import Myco.Continuity.Dormancy
import Myco.Lib.StableSort
import Myco.Substrate.PlateOrder
import Myco.Consensus.NextRound
import Myco.Federation.Chains
import Myco.Cultivation.SuccessorChain
import Myco.Lib.Streaks
import Myco.Tropism.Episodes
import Myco.Lib.Worklist
import Myco.Trajectory.Intent
import Myco.Trajectory.Queries
import Myco.Trajectory.Clusters
import Myco.Continuity.Wal
import Myco.Shared.ActivePrefix
import Myco.Prune.Present
import Myco.Tropism.Climbing
import Myco.Substrate.Presence
import Myco.Skin.Surface
import Myco.Skin.Envelope
import Myco.Skin.Session
import Myco.Reproduction.Spore
import Myco.Cultivation.Archive
import Myco.Substrate.Durable
import Myco.Substrate.EnumerateDag
import Myco.Canonical.RendererFields
import Myco.Operator.Crossing
import Myco.Operator.Audit
import Myco.Operator.Floats
import Myco.Substrate.ImmuneCheck
import Myco.Tropism.Lifecycle
