import TxGen.Lib.Machine
import TxGen.Spec.Engine

/-!
# Runs of the engine

The world is the state file, the process using it, if one runs, and a record of
what has happened: every transaction handed to `Broadcast` with the lifetime it was
handed in, those the network accepted, the outputs imported from the UTXO source,
and the transactions committed to the store, those committed by a replay apart.
The record only grows and nothing the engine does depends on it.

An event is one step of one goroutine, with at most one store transaction in it,
the start of a process, its crash, or an action of its surroundings. An event that
is not enabled changes nothing.
-/

namespace TxGen

open Lib

/-- How a call of `Broadcast` ends: accepted and reported so, rejected, or accepted
by the network and reported as an error. -/
inductive Outcome
  | accepted
  | rejected
  | lost
  deriving DecidableEq, Repr

/-- A step of a spending goroutine; `ok` says whether its store write succeeds. -/
inductive TaskEvent
  | save (ok : Bool) (savedAt : ℕ)
  | broadcast (o : Outcome)
  | clear (ok : Bool)
  | commit (ok : Bool)
  | giveUp

/-- A step of the world.

* `start o initial`: a process starts; `initial` are the `InitialUTXOs` of `New`
* `crash`: the process ends between two store transactions
* `cancel`: its context is canceled
* `configure u`: a call of `ConfigureBootstrap`
* `poll utxos`: the UTXO source answers the poll for the funding UTXO
* `main ok`: the next step of the main goroutine
* `task i e`: a step of the spending goroutine `i` -/
inductive Event (Hash : Type)
  | start (o : Options Hash) (initial : List UTXO)
  | crash
  | cancel
  | configure (u : BootstrapUpdate)
  | poll (utxos : List UTXO)
  | main (ok : Bool)
  | task (i : ℕ) (e : TaskEvent)

/-- The state file, the running process, and what has happened. -/
structure World (Hash : Type) where
  store : Store Hash
  proc : Option (Proc Hash)
  life : ℕ
  sent : List (ℕ × PendingBroadcast Hash)
  accepted : List (PendingBroadcast Hash)
  imported : List UTXO
  committed : List (PendingBroadcast Hash)
  replayed : List (PendingBroadcast Hash)

variable {Hash : Type}

/-- The order in which `replayPending` applies records: oldest first, then by txid. -/
def replayBefore (a b : PendingBroadcast Hash) : Prop :=
  a.savedAt < b.savedAt ∨ (a.savedAt = b.savedAt ∧ a.txID ≤ b.txID)

instance : DecidableRel (@replayBefore Hash) := fun _ _ => instDecidableOr

namespace World

variable (w : World Hash)

/-- A world with the given state file, no process, and the stored UTXOs taken as
imported. -/
def init (s : Store Hash) : World Hash := ⟨s, none, 0, [], [], s.loadAll, [], []⟩

/-- The process continues with memory `q`. -/
def setProc (q : Proc Hash) : World Hash := { w with proc := some q }

/-- The process ends. -/
def exit : World Hash := { w with proc := none }

/-- `Run` returns an error; its goroutines have ended. -/
def fail (q : Proc Hash) (e : RunError) : World Hash :=
  w.setProc { q with main := .failed e, tasks := [] }

/-- `SaveUTXO` of a UTXO that is imported when it is not in the store. -/
def importUTXO (u : UTXO) : World Hash :=
  { w with
    store := w.store.saveUTXO u
    imported := if u ∈ w.store.loadAll then w.imported else w.imported ++ [u] }

/-- `CommitPending` of an accepted or replayed broadcast. -/
def commit (p : PendingBroadcast Hash) : World Hash :=
  { w with
    store := w.store.commitPending p.txID p.spent p.created
    committed := w.committed ++ [p] }

/-- The store part of `setBootstrapStage`; a failed write is only logged. -/
def writeStage (ok : Bool) (stage : Stage) : World Hash :=
  if ok then { w with store := w.store.setStage stage } else w

/-- The last part of `restore`: the queue is read again when the replay changed
the store, and a persisted stage replaces the one in memory. -/
def finishRestore (q : Proc Hash) (changed : Bool) : World Hash :=
  w.setProc { q with
    queue := if changed then Queue.restore w.store.loadAll else q.queue
    stage := w.store.stage.getD q.stage
    main := .ready }

/-- The L1 fanout of `bootstrapFull`, after the write of the stage. -/
def beginL1 (q : Proc Hash) : World Hash :=
  match Queue.pop q.queue with
  | none => w.fail q .noUTXOs
  | some (seed, rest) => w.setProc { q with
      queue := rest
      tasks := [⟨.l1, seed, q.l1Count, 1, .wait⟩]
      main := .l1 }

/-- `bootstrapFull` when its L1 fanout has returned: on success the stage is
written and the outputs queued for the L2 fanout. -/
def endL1 (q : Proc Hash) (ok : Bool) : World Hash :=
  match q.tasks with
  | [t] =>
    match t.pc with
    | .done outputs => (w.writeStage ok .l1Done).setProc { q with
        stage := .l1Done
        queue := Queue.pushAll q.queue outputs
        tasks := []
        main := .l2Start }
    | .requeued e => w.fail q (.l1 e)
    -- the broadcast was accepted but not committed: the seed is not pushed back
    | .stopped => w.fail q .commitL1
    | _ => w
  | _ => w

/-- `bootstrapL2` up to the start of its fanouts, after the write of the stage. -/
def beginL2 (q : Proc Hash) : World Hash :=
  let parents := Queue.drain q.queue
  -- the drained parents are pushed back only when there are too many of them
  if parents = [] then w.fail { q with queue := [] } .noUTXOs
  else if q.numChains < parents.length then
    w.fail { q with queue := Queue.pushAll [] parents } .manualRecovery
  else w.setProc { q with
    queue := []
    tasks := parents.mapIdx fun i parent =>
      ⟨.l2, parent, l2FanoutSizeForParent q.numChains parents.length i, 1, .wait⟩
    main := .l2 }

/-- `bootstrapL2` when every fanout has returned: the outputs are queued in the
order of the parents, and only a complete fanout reaches `l2Done`. -/
def endL2 (q : Proc Hash) (ok : Bool) : World Hash :=
  if q.tasks.all Task.ended then
    let outputs := q.tasks.flatMap Task.outputs
    let queue := Queue.pushAll q.queue outputs
    if q.tasks.all Task.accepted ∧ (outputs.length : ℤ) = q.numChains then
      (w.writeStage ok .l2Done).setProc
        { q with stage := .l2Done, queue, tasks := [], main := .chains }
    else
      -- what was produced stays queued although the bootstrap has failed
      (w.writeStage ok .l2Partial).fail { q with stage := .l2Partial, queue } .bootstrapIncomplete
  else w

/-- The next step of the main goroutine of the process `q`. -/
def mainStep (q : Proc Hash) (ok : Bool) : World Hash :=
  match q.main with
  | .persist [] =>
    w.setProc { q with main := .replay (w.store.loadPending.insertionSort replayBefore) false 0 }
  | .persist (u :: rest) =>
    if ok then (w.importUTXO u).setProc { q with main := .persist rest } else w.exit
  | .replay [] changed unknown =>
    if unknown = 0 then w.finishRestore q changed
    else (w.writeStage ok .unknown).finishRestore { q with stage := .unknown } changed
  | .replay (p :: rest) changed unknown =>
    if p.spent = [] ∧ p.created = [] then
      -- without its transition a record is only counted; it stays in the store
      w.setProc { q with main := .replay rest changed (unknown + 1) }
    else if ok then
      { (w.commit p) with replayed := w.replayed ++ [p] }.setProc { q with
        main := match p.stage with
          | some stage => .replayStage stage rest true unknown
          | none => .replay rest true unknown }
    else w.exit
  | .replayStage stage rest changed unknown =>
    (w.writeStage ok stage).setProc { q with stage, main := .replay rest changed unknown }
  | .ready =>
    if q.stage = .none ∧ q.queue = [] then
      if q.hasSource then w.setProc { q with main := .waitForSeed } else w.fail q .noUTXOs
    else w.setProc { q with main := .lock q.stage }
  | .waitForSeed => if q.ctxDone then w.fail q .canceled else w
  -- `bootstrap` read the stage before it waited for the seed
  | .pushSeed [] => w.setProc { q with main := .lock .none }
  | .pushSeed (u :: rest) =>
    -- `pushPersisted` pushes before it saves, so a failed write leaves `u` queued
    let q' := { q with queue := Queue.push q.queue u }
    if ok then (w.importUTXO u).setProc { q' with main := .pushSeed rest }
    else w.fail q' .persistFunding
  | .lock stage => w.setProc { q with
      bootstrapLocked := true
      main := dispatch stage q.queue.length q.numChains q.l1Count }
  | .full => (w.writeStage ok .none).beginL1 { q with stage := .none }
  | .l1 => w.endL1 q ok
  | .l2Start => (w.writeStage ok .l2Partial).beginL2 { q with stage := .l2Partial }
  | .l2 => w.endL2 q ok
  | .markDone => (w.writeStage ok .l2Done).setProc { q with stage := .l2Done, main := .chains }
  | .chains =>
    match Queue.pop q.queue with
    -- every chain is started: `runChains` blocks until the context is canceled
    | none => w
    | some (u, rest) =>
      w.setProc { q with queue := rest, tasks := q.tasks ++ [⟨.sustain, u, 0, 1, .wait⟩] }
  | .failed _ => w

/-- The process continues with task `i` replaced by `t`. -/
def setTask (q : Proc Hash) (i : ℕ) (t : Task Hash) : World Hash :=
  w.setProc { q with tasks := q.tasks.set i t }

/-- A fanout is given up before it is accepted: its parent goes back on the queue. -/
def requeue (q : Proc Hash) (i : ℕ) (t : Task Hash) (e : FanoutError) : World Hash :=
  w.setTask { q with queue := Queue.push q.queue t.utxo } i { t with pc := .requeued e }

variable (sdk : SDK Hash)

/-- Build the transaction and write its pending record. A chain that cannot build
waits for its next tick; one that cannot write stops. -/
def taskSave (q : Proc Hash) (i : ℕ) (t : Task Hash) (ok : Bool) (savedAt : ℕ) : World Hash :=
  match t.build sdk q.mode with
  | .error e => if t.kind = .sustain then w else w.requeue q i t (.build e)
  | .ok p =>
    -- `SavePending` refuses an empty txid
    if ok = true ∧ p.txID ≠ [] then
      { w with store := w.store.savePending { p with savedAt } }.setTask q i { t with pc := .saved p }
    else if t.kind = .sustain then w.setTask q i { t with pc := .stopped }
    else w.requeue q i t .savePending

/-- `Broadcast` of the saved transaction. -/
def taskBroadcast (q : Proc Hash) (i : ℕ) (t : Task Hash) (p : PendingBroadcast Hash)
    (o : Outcome) : World Hash :=
  { w with
    sent := w.sent ++ [(w.life, p)]
    -- Arcade may accept a transaction whose answer is lost on the way back
    accepted := if o = Outcome.rejected then w.accepted else w.accepted ++ [p] }.setTask q i
      { t with pc := if o = Outcome.accepted then .accepted p else .rejected p }

/-- Clear the record of a failed broadcast; a failed write is only logged. A chain
tries again at its next tick, a fanout until its attempts are used up. -/
def taskClear (q : Proc Hash) (i : ℕ) (t : Task Hash) (p : PendingBroadcast Hash) (ok : Bool) :
    World Hash :=
  let w' := if ok then { w with store := w.store.clearPending p.txID } else w
  if t.kind = .sustain then w'.setTask q i { t with pc := .wait }
  else if t.attempt < bootstrapAttempts then
    w'.setTask q i { t with pc := .wait, attempt := t.attempt + 1 }
  else w'.requeue q i t .broadcast

/-- Commit an accepted transaction; when the write fails the goroutine returns. -/
def taskCommit (q : Proc Hash) (i : ℕ) (t : Task Hash) (p : PendingBroadcast Hash) (ok : Bool) :
    World Hash :=
  if ok then (w.commit p).setTask q i (t.afterCommit p)
  else w.setTask q i { t with pc := .stopped }

/-- A canceled context ends a wait: a chain returns, a fanout in its backoff is
given up. -/
def taskGiveUp (q : Proc Hash) (i : ℕ) (t : Task Hash) : World Hash :=
  if q.ctxDone = false then w
  else if t.kind = .sustain then w.setTask q i { t with pc := .stopped }
  -- the first attempt of a fanout has no backoff before it
  else if 1 < t.attempt then w.requeue q i t .canceled
  else w

/-- A step of task `i` of the process `q`. -/
def taskStep (q : Proc Hash) (i : ℕ) (e : TaskEvent) : World Hash :=
  match q.tasks[i]? with
  | none => w
  | some t =>
    match e, t.pc with
    | .save ok savedAt, .wait => w.taskSave sdk q i t ok savedAt
    | .broadcast o, .saved p => w.taskBroadcast q i t p o
    | .clear ok, .rejected p => w.taskClear q i t p ok
    | .commit ok, .accepted p => w.taskCommit q i t p ok
    | .giveUp, .wait => w.taskGiveUp q i t
    -- an event that the task is not waiting for changes nothing
    | _, _ => w

/-- The `InitialUTXOs` a process may be started with: none, those the store holds,
or, when the store holds none, what the UTXO source returned. -/
def startsWith (initial : List UTXO) : Bool :=
  initial = [] || initial = w.store.loadAll || w.store.loadAll = []

/-- One event. -/
def step (w : World Hash) (e : Event Hash) : World Hash :=
  match e, w.proc with
  | .start o initial, none =>
    if w.startsWith initial then
      { w with proc := some (Proc.new o w.store.loadAll initial), life := w.life + 1 }
    else w
  | .crash, some _ => w.exit
  | .cancel, some q => w.setProc { q with ctxDone := true }
  | .configure u, some q =>
    -- the control server is started only after `New` has returned
    if q.main.starting then w
    else match q.configureBootstrap u with
      | .error _ => w
      | .ok q' => w.setProc q'
  | .poll utxos, some q =>
    match q.main with
    | .waitForSeed => if utxos = [] then w else w.setProc { q with main := .pushSeed utxos }
    | _ => w
  | .main ok, some q => w.mainStep q ok
  | .task i e, some q => w.taskStep sdk q i e
  | _, _ => w

/-- The world after a list of events. -/
def run (w : World Hash) (es : List (Event Hash)) : World Hash := Lib.run (step sdk) w es

end World

end TxGen
