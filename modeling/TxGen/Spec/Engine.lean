import TxGen.Spec.Store
import TxGen.Spec.Queue

/-!
# The engine's goroutines

`internal/engine`: one process lifetime is a main goroutine (`New`, `bootstrap`,
`runChains`) and the spending goroutines it starts, one per fanout or chain.

* `Task` is one spending goroutine: build, `savePending`, `Broadcast`, then
  `clearPending` and another try, or `commit`. It is `broadcastWithRetry` with its
  callers `bootstrapFull` and `fanoutParent` for a fanout, `runChain` for a chain.
* `Main` is where the main goroutine stands. Its program points are its store
  transactions: between two of them the process may crash.
* `Proc` is the memory of a running process.

The step function is in `TxGen.Spec.World`.
-/

namespace TxGen

/-! ## Configuration -/

/-- Reduction of a 64-bit `int` result. -/
def i64 (n : ℤ) : ℤ := n.bmod (2 ^ 64)

/-- `ceilDiv`: `n / d` rounded up, or 0 when `d` is not positive. -/
def ceilDiv (n d : ℤ) : ℤ := if d ≤ 0 then 0 else (i64 (n + d - 1)).tdiv d

/-- `l2FanoutSizeForParent`: the first `numChains % parentCount` parents get one
output more than the others. -/
def l2FanoutSizeForParent (numChains parentCount parentIndex : ℤ) : ℤ :=
  if numChains ≤ 0 ∨ parentCount ≤ 0 ∨ parentIndex < 0 ∨ parentCount ≤ parentIndex then 0
  else
    let size := numChains.tdiv parentCount
    if parentIndex < numChains.tmod parentCount then size + 1 else size

/-- `positiveOr`. -/
def positiveOr (v dflt : ℤ) : ℤ := if 0 < v then v else dflt

def defaultNumChains : ℤ := 10000

def defaultFanoutSize : ℤ := 100

/-- The number of broadcast attempts per fanout. -/
def bootstrapAttempts : ℕ := 3

/-- The options a process is started with; `hasSource` says whether a UTXO source
is set. -/
structure Options (Hash : Type) where
  mode : Mode Hash
  numChains : ℤ
  fanoutSize : ℤ
  hasSource : Bool

/-- The effective bootstrap configuration. -/
structure BootstrapConfig where
  numChains : ℤ
  fanoutSize : ℤ
  sustainFee : ℕ
  deriving DecidableEq, Repr

/-- A change of the bootstrap parameters; `none` leaves a field unchanged. -/
structure BootstrapUpdate where
  numChains : Option ℤ
  fanoutSize : Option ℤ
  sustainFee : Option ℕ

/-- The configuration that `New` derives from its options. -/
def Options.config {Hash : Type} (o : Options Hash) : BootstrapConfig :=
  ⟨positiveOr o.numChains defaultNumChains, positiveOr o.fanoutSize defaultFanoutSize,
    o.mode.sustainFee⟩

/-! ## Spending goroutines -/

/-- Which code runs a task: the L1 fanout of `bootstrapFull`, one L2 fanout of
`bootstrapL2`, or `runChain`. -/
inductive Kind
  | l1
  | l2
  | sustain
  deriving DecidableEq, Repr

/-- Why a fanout is given up before it is accepted. -/
inductive FanoutError
  | build (e : BuildError)
  | savePending
  | broadcast
  | canceled
  deriving DecidableEq, Repr

/-- Where a spending goroutine stands.

* `wait`: before the next build and `savePending` (a chain between two ticks, a
  fanout before an attempt or in its backoff)
* `saved p`: the pending record is written, `Broadcast` has not returned
* `rejected p`: `Broadcast` returned an error, the record is not yet cleared
* `accepted p`: `Broadcast` returned nil, the record is not yet committed
* `done outputs`: a committed fanout with its outputs, or an exhausted chain
* `requeued`: a fanout given up, its parent pushed back on the queue
* `stopped`: a chain that returned, or a fanout whose commit failed -/
inductive TaskPc (Hash : Type)
  | wait
  | saved (p : PendingBroadcast Hash)
  | rejected (p : PendingBroadcast Hash)
  | accepted (p : PendingBroadcast Hash)
  | done (outputs : List UTXO)
  | requeued (e : FanoutError)
  | stopped
  deriving DecidableEq, Repr

/-- A spending goroutine: what it spends, the number of outputs of a fanout, the
number of the attempt, and where it stands. -/
structure Task (Hash : Type) where
  kind : Kind
  utxo : UTXO
  n : ℤ
  attempt : ℕ
  pc : TaskPc Hash
  deriving DecidableEq, Repr

variable {Hash : Type} (sdk : SDK Hash)

/-- The pending record of a fanout that reaches `stage`. -/
def fanoutPending (utxo : UTXO) (n : ℤ) (mode : Mode Hash) (stage : Stage) :
    Except BuildError (PendingBroadcast Hash) := do
  let (tx, outputs) ← buildFanout sdk utxo n mode
  return ⟨tx.txID, some tx.ef, [utxo], outputs, some stage, 0⟩

/-- The pending record of a sustain hop. -/
def sustainPending (utxo : UTXO) (mode : Mode Hash) :
    Except BuildError (PendingBroadcast Hash) := do
  let (tx, next) ← buildSustain sdk utxo mode
  return ⟨tx.txID, some tx.ef, [utxo], [next], some .l2Done, 0⟩

/-- The record a task writes before it broadcasts. -/
def Task.build (mode : Mode Hash) (t : Task Hash) : Except BuildError (PendingBroadcast Hash) :=
  match t.kind with
  | .l1 => fanoutPending sdk t.utxo t.n mode .l1Done
  | .l2 => fanoutPending sdk t.utxo t.n mode .l2Partial
  | .sustain => sustainPending sdk t.utxo mode

/-- The task has returned. -/
def Task.ended (t : Task Hash) : Bool :=
  match t.pc with
  | .done _ | .requeued _ | .stopped => true
  | _ => false

/-- The outputs of a committed fanout. -/
def Task.outputs (t : Task Hash) : List UTXO :=
  match t.pc with
  | .done outputs => outputs
  | _ => []

/-- The fanout was committed (`l2Result.accepted`). -/
def Task.accepted (t : Task Hash) : Bool :=
  match t.pc with
  | .done _ => true
  | _ => false

/-- What a task does after its commit: a fanout is done, a chain goes on with its
new output, or ends when that is worth nothing. -/
def Task.afterCommit (t : Task Hash) (p : PendingBroadcast Hash) : Task Hash :=
  if t.kind = .sustain then
    match p.created with
    | next :: _ => if next.value = 0 then { t with pc := .done [] }
        else { t with utxo := next, pc := .wait }
    | [] => { t with pc := .done [] }
  else { t with pc := .done p.created }

/-! ## The main goroutine -/

/-- Why `Run` returned an error. -/
inductive RunError
  | noUTXOs
  | manualRecovery
  | bootstrapIncomplete
  | persistFunding
  | l1 (e : FanoutError)
  | commitL1
  | canceled
  deriving DecidableEq, Repr

/-- Where the main goroutine stands; a point that names a stage is about to
persist it.

* `persist rest`: `New` saving the initial UTXOs
* `replay rest changed unknown`: `replayPending` before the records `rest`
* `replayStage`: a record is committed and its stage not yet written
* `ready`: `New` has returned
* `waitForSeed`, `pushSeed rest`: polling for the funding UTXO, saving what came
* `lock stage`: about to fix the parameters and choose what to do
* `full`, `l1`: `bootstrapFull` before its first stage write, and its L1 fanout
* `l2Start`, `l2`: `bootstrapL2` before its first stage write, and its L2 fanouts
* `markDone`: about to persist `l2Done` and return nil
* `chains`: bootstrap returned nil, chains are being started or run
* `failed e`: `Run` has returned an error -/
inductive Main (Hash : Type)
  | persist (rest : List UTXO)
  | replay (rest : List (PendingBroadcast Hash)) (changed : Bool) (unknown : ℕ)
  | replayStage (stage : Stage) (rest : List (PendingBroadcast Hash)) (changed : Bool)
      (unknown : ℕ)
  | ready
  | waitForSeed
  | pushSeed (rest : List UTXO)
  | lock (stage : Stage)
  | full
  | l1
  | l2Start
  | l2
  | markDone
  | chains
  | failed (e : RunError)
  deriving DecidableEq, Repr

/-- `New` has not returned yet. -/
def Main.starting : Main Hash → Bool
  | .persist _ | .replay .. | .replayStage .. => true
  | _ => false

/-- `resumePartialL2`, with the queue length and the two counts it compares. -/
def resumePartialL2 (queued numChains l1Count : ℤ) : Main Hash :=
  if numChains ≤ queued then .markDone
  else if queued = l1Count then .l2Start
  else if 0 < queued then .markDone
  else .failed .manualRecovery

/-- The dispatch of `bootstrap` on the stage it started from. -/
def dispatch (stage : Stage) (queued numChains l1Count : ℤ) : Main Hash :=
  match stage with
  | .l2Done => .chains
  | .l1Done => .l2Start
  | .l2Partial => resumePartialL2 queued numChains l1Count
  | .unknown => .failed .manualRecovery
  | .none =>
    if queued = 1 then .full
    else if queued = l1Count then .l2Start
    else if 0 < queued then .markDone
    else .failed .noUTXOs

/-! ## The memory of a process -/

/-- Why `ConfigureBootstrap` refuses an update. -/
inductive ConfigureError
  | invalid (msg : String)
  | bootstrapLocked
  deriving DecidableEq, Repr

/-- The memory of a running process. -/
structure Proc (Hash : Type) where
  numChains : ℤ
  fanoutSize : ℤ
  mode : Mode Hash
  hasSource : Bool
  stage : Stage
  bootstrapLocked : Bool
  queue : List UTXO
  tasks : List (Task Hash)
  main : Main Hash
  ctxDone : Bool

namespace Proc

variable (q : Proc Hash)

/-- The effective bootstrap configuration. -/
def config : BootstrapConfig := ⟨q.numChains, q.fanoutSize, q.mode.sustainFee⟩

/-- The number of L1 outputs, or of parents of the L2 fanout. -/
def l1Count : ℤ := ceilDiv q.numChains q.fanoutSize

/-- `Run` has not returned and no chain has been started: the lifecycle is
`starting` or `bootstrapping`. -/
def bootstrapping : Bool :=
  match q.main with
  | .chains | .failed _ => false
  | _ => true

/-- The condition under which `ConfigureBootstrap` answers `ErrBootstrapLocked`. -/
def funded : Bool :=
  q.bootstrapLocked || q.stage ≠ .none || !q.bootstrapping || q.queue ≠ []
    || q.tasks.any fun t => t.kind = .sustain && !t.ended

/-- The first supplied parameter that is not positive. -/
def checkUpdate (u : BootstrapUpdate) : Option ConfigureError :=
  if u.numChains.any (· ≤ 0) then some (.invalid "numChains must be positive")
  else if u.fanoutSize.any (· ≤ 0) then some (.invalid "fanoutSize must be positive")
  else if u.sustainFee.any (· = 0) then some (.invalid "sustainFee must be positive")
  else none

/-- The mode after an update of the sustain fee. -/
def updateMode (m : Mode Hash) : Option ℕ → Mode Hash
  | none => m
  | some fee => if h : 0 < fee then m.withSustainFee ⟨fee, h⟩ else m

/-- `ConfigureBootstrap`: every field is validated before any is applied, and
nothing is applied once the engine is funded. -/
def configureBootstrap (u : BootstrapUpdate) : Except ConfigureError (Proc Hash) :=
  match checkUpdate u with
  | some e => .error e
  | none =>
    if q.funded then .error .bootstrapLocked
    else .ok { q with
      numChains := u.numChains.getD q.numChains
      fanoutSize := u.fanoutSize.getD q.fanoutSize
      mode := updateMode q.mode u.sustainFee }

/-- The first steps of `New`, which touch only memory: the queue is filled from
`initial`, or from the store when there are none. What follows saves the initial
UTXOs in the order of the heap's slice. -/
def new (o : Options Hash) (stored initial : List UTXO) : Proc Hash :=
  let queue := Queue.restore (if initial = [] then stored else initial)
  { numChains := positiveOr o.numChains defaultNumChains
    fanoutSize := positiveOr o.fanoutSize defaultFanoutSize
    mode := o.mode
    hasSource := o.hasSource
    stage := .none
    bootstrapLocked := false
    queue
    tasks := []
    main := .persist (if initial = [] then [] else queue)
    ctxDone := false }

end Proc

end TxGen
