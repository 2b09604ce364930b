import TxGen.Spec.World

/-!
# `New` on the raw contents of a state file

`LoadPending` of `internal/store` and `restore` of `internal/engine/persist.go`, on
a pending bucket of keys and bytes. A record whose bytes do not decode is loaded
with its key and its bytes only, and a record that decodes may name another txid
than the key it is stored under. The stage is a text: the one in the file and the
one in a record need not be among the stages of the engine.

The world starts from contents in which every record is stored under its txid;
`TxGen.Proof.Restore` relates the two.
-/

namespace TxGen

open Lib

/-- The text of a stage. -/
def Stage.text : Stage → Bytes
  | .none => ascii "none"
  | .l1Done => ascii "l1_done"
  | .l2Partial => ascii "l2_partial"
  | .l2Done => ascii "l2_done"
  | .unknown => ascii "unknown"

/-- A pending record as the file holds it; `stage` is a text. -/
structure RawPending where
  txID : Bytes
  ef : Bytes
  spent : List UTXO
  created : List UTXO
  stage : Bytes
  savedAt : ℕ
  deriving DecidableEq, Repr

/-- A record without its state transition. -/
def RawPending.unreplayable (p : RawPending) : Bool := p.spent = [] && p.created = []

/-- The order in which `replayPending` applies records: oldest first, then by txid. -/
def RawPending.before (a b : RawPending) : Prop :=
  a.savedAt < b.savedAt ∨ (a.savedAt = b.savedAt ∧ a.txID ≤ b.txID)

instance : DecidableRel RawPending.before := fun _ _ => instDecidableOr

/-- The contents of a state file; `stage` is empty when it was never written. -/
structure RawStore where
  utxos : Table UTXO.key
  pending : Bucket Bytes Bytes
  stage : Bytes

/-- What `LoadPending` makes of one entry, with the decoder `decode`. -/
def loadRecord (decode : Bytes → Option RawPending) (key value : Bytes) : RawPending :=
  let p := (decode value).getD ⟨key, value, [], [], [], 0⟩
  if p.txID = [] then { p with txID := key } else p

namespace RawStore

variable (s : RawStore)

/-- `SaveUTXO`. -/
def saveUTXO (u : UTXO) : RawStore := { s with utxos := s.utxos.insert u }

/-- `LoadAll`. -/
def loadAll : List UTXO := s.utxos.values

/-- `LoadPending`. -/
def loadPending (decode : Bytes → Option RawPending) : List RawPending :=
  s.pending.entries.map fun kv => loadRecord decode kv.1 kv.2

/-- `CommitPending`. -/
def commitPending (txid : Bytes) (spent created : List UTXO) : RawStore :=
  let pending := if txid = [] then s.pending else s.pending.delete txid
  let removed := spent.foldl (fun b u => b.erase u.key) s.utxos
  let utxos := created.foldl (fun b u => if u.value = 0 then b else b.insert u) removed
  { s with pending, utxos }

/-- `persistAll`; `ok` says whether all of its writes succeed. -/
def persistAll (us : List UTXO) (ok : Bool) : Option RawStore :=
  if us = [] ∨ ok = true then some (us.foldl saveUTXO s) else none

end RawStore

/-- A record to replay, and whether its commit and the write of its stage succeed. -/
structure Replay where
  record : RawPending
  commitOk : Bool
  stageOk : Bool

/-- `xs` are the pending records in the order of `replayPending`, which leaves open
how records that agree on time and txid are ordered. -/
def RawStore.ReplayOrder (decode : Bytes → Option RawPending) (s : RawStore) (xs : List Replay) :
    Prop :=
  (xs.map Replay.record).Perm (s.loadPending decode) ∧
    (xs.map Replay.record).Pairwise RawPending.before

/-- `replayPending` in progress: the file, the stage in memory, whether any UTXO
changed, and the number of records that cannot be replayed. -/
structure Restoring where
  store : RawStore
  stage : Bytes
  changed : Bool
  unknown : ℕ

namespace Restoring

variable (r : Restoring)

/-- `setBootstrapStage`; a failed write is only logged. -/
def setBootstrapStage (ok : Bool) (stage : Bytes) : Restoring :=
  { r with stage, store := if ok then { r.store with stage } else r.store }

/-- One record; a failed commit ends `New`. -/
def replay (x : Replay) : Option Restoring :=
  if x.record.unreplayable then some { r with unknown := r.unknown + 1 }
  else if x.commitOk then
    let r' := { r with
      store := r.store.commitPending x.record.txID x.record.spent x.record.created
      changed := true }
    some (if x.record.stage = [] then r' else r'.setBootstrapStage x.stageOk x.record.stage)
  else none

/-- The records, one after the other. -/
def replayAll : Restoring → List Replay → Option Restoring
  | r, [] => some r
  | r, x :: xs => (r.replay x).bind fun r' => r'.replayAll xs

end Restoring

/-- The engine that `New` returns: the file, the stage in memory and the queue. -/
structure RawEngine where
  store : RawStore
  stage : Bytes
  queue : List UTXO

/-- The end of `replayPending` and of `restore`: the stage becomes `unknown` when a
record could not be replayed, and the one in the file then replaces the one in
memory, if there is one. -/
def Restoring.finish (r : Restoring) (queue : List UTXO) (unknownOk : Bool) : RawEngine :=
  let r' := if r.unknown = 0 then r else r.setBootstrapStage unknownOk Stage.unknown.text
  { store := r'.store
    stage := if r'.store.stage = [] then r'.stage else r'.store.stage
    queue := if r.changed then Queue.restore r'.store.loadAll else queue }

/-- `New` with the `InitialUTXOs` `initial`. The parameters `persistOk`, `xs` and
`unknownOk` say which of its writes succeed; the result is `none` when `New` returns
an error. -/
def RawStore.restore (s : RawStore) (initial : List UTXO) (persistOk : Bool) (xs : List Replay)
    (unknownOk : Bool) : Option RawEngine :=
  let queue := Queue.restore (if initial = [] then s.loadAll else initial)
  (s.persistAll (if initial = [] then [] else queue) persistOk).bind fun s' =>
    (Restoring.replayAll ⟨s', Stage.none.text, false, 0⟩ xs).map fun r =>
      r.finish queue unknownOk

/-- The process `q` is the engine `e` that `New` returned, before `Run`. -/
structure RawEngine.Returned {Hash : Type} (e : RawEngine) (q : Proc Hash) : Prop where
  main : q.main = .ready
  stage : q.stage.text = e.stage
  queue : q.queue = e.queue
  tasks : q.tasks = []

end TxGen
