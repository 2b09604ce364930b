import TxGen.Lib.Machine
import TxGen.Lib.Bucket
import TxGen.Lib.Table
import TxGen.Lib.Heap
import TxGen.Lib.HeapOrder
import TxGen.Lib.Slots
import TxGen.Lib.Loop
import TxGen.Lib.Code
import TxGen.Lib.Text
import TxGen.Lib.Utf8
import TxGen.Lib.Signal
import TxGen.Lib.Mirror
import TxGen.Lib.Lines
import TxGen.Lib.Represent
import TxGen.Lib.Lockstep
import TxGen.Lib.Watchdog
import TxGen.Lib.Binary64
import TxGen.Lib.Json
import TxGen.Lib.Unmarshal
import TxGen.Lib.Duration
import TxGen.Spec.Tx
import TxGen.Spec.Tag
import TxGen.Spec.Script
import TxGen.Spec.Store
import TxGen.Spec.Queue
import TxGen.Spec.Engine
import TxGen.Spec.World
import TxGen.Spec.Restore
import TxGen.Spec.Status
import TxGen.Spec.Rate
import TxGen.Spec.Live
import TxGen.Spec.Server
import TxGen.Spec.App
import TxGen.Spec.Funding
import TxGen.Spec.Wire
import TxGen.Spec.File
import TxGen.Spec.Gauge
import TxGen.Spec.SSE
import TxGen.Spec.Notifier
import TxGen.Spec.Backoff
import TxGen.Spec.Logs
import TxGen.Spec.Arcade
import TxGen.Spec.Stream
import TxGen.Spec.Pace
import TxGen.Spec.Shutdown
import TxGen.Spec.Body
import TxGen.Spec.Feed
import TxGen.Spec.WoC
import TxGen.Spec.Config
import TxGen.Spec.Settings
import TxGen.Spec.Ready
import TxGen.Spec.Counters
import TxGen.Proof.Tx
import TxGen.Proof.Tag
import TxGen.Proof.Script
import TxGen.Proof.Store
import TxGen.Proof.Concrete
import TxGen.Proof.Ledger
import TxGen.Proof.Queue
import TxGen.Proof.Custody
import TxGen.Proof.Steps
import TxGen.Proof.Invariant
import TxGen.Proof.Provenance
import TxGen.Proof.Params
import TxGen.Proof.Replay
import TxGen.Proof.Restore
import TxGen.Proof.ZeroValue
import TxGen.Proof.Sustain
import TxGen.Proof.Fanout
import TxGen.Proof.Bootstrap
import TxGen.Proof.Stages
import TxGen.Proof.StageLag
import TxGen.Proof.Refanout
import TxGen.Proof.Funding
import TxGen.Proof.FanoutSearch
import TxGen.Proof.Delivery
import TxGen.Proof.Rate
import TxGen.Proof.Live
import TxGen.Proof.Lifecycle
import TxGen.Proof.Frozen
import TxGen.Proof.Server
import TxGen.Proof.App
import TxGen.Proof.Import
import TxGen.Proof.OneScript
import TxGen.Proof.Wire
import TxGen.Proof.File
import TxGen.Proof.Request
import TxGen.Proof.L2
import TxGen.Proof.L2Split
import TxGen.Proof.L2Kept
import TxGen.Proof.Chain
import TxGen.Proof.Gauge
import TxGen.Proof.SSE
import TxGen.Proof.Notifier
import TxGen.Proof.Backoff
import TxGen.Proof.Arcade
import TxGen.Proof.Secrets
import TxGen.Proof.Stream
import TxGen.Proof.Pace
import TxGen.Proof.Shutdown
import TxGen.Proof.Body
import TxGen.Proof.Auth
import TxGen.Proof.Feed
import TxGen.Proof.WoC
import TxGen.Proof.Config
import TxGen.Proof.Settings
import TxGen.Proof.Ready
import TxGen.Proof.Counters
