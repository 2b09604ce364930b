import TxGen.Lib.Heap
import TxGen.Spec.Tx

/-!
# The in-memory queue

`internal/engine/queue.go`: a min-heap of UTXOs, oldest confirmation first. The
queue's state is the heap's slice.
-/

namespace TxGen.Queue

open Lib

/-- Unconfirmed UTXOs (height 0) sort after every confirmed one. -/
def unconfirmedHeight : ℤ := 2 ^ 62

/-- `sortHeight`. -/
def sortHeight (height : ℤ) : ℤ := if height = 0 then unconfirmedHeight else height

/-- The heap order: confirmed UTXOs by height, unconfirmed ones last. -/
def less (a b : UTXO) : Bool := sortHeight a.height < sortHeight b.height

/-- `push` changes only memory. -/
def push (q : List UTXO) (u : UTXO) : List UTXO := Heap.push less q u

/-- Push a list of UTXOs one by one. -/
def pushAll (q us : List UTXO) : List UTXO := Heap.pushAll less q us

/-- `pop`: remove the oldest UTXO from memory. -/
def pop (q : List UTXO) : Option (UTXO × List UTXO) := Heap.pop less q

/-- `drain`: remove every UTXO, oldest first. -/
def drain (q : List UTXO) : List UTXO := Heap.drain less q

/-- `restore`: the queue filled with the UTXOs of the store, in the order listed. -/
def restore (stored : List UTXO) : List UTXO := pushAll [] stored

/-- A call of the queue; `restore` with what `LoadAll` returned, or with `none` when it
failed or there is no store. -/
inductive Op
  | push (u : UTXO)
  | pop
  | drain
  | restore (loaded : Option (List UTXO))
  deriving DecidableEq, Repr

/-- What a call returns, and the queue after it. -/
def Op.call (q : List UTXO) : Op → List UTXO × List UTXO
  | .push u => ([], Queue.push q u)
  | .pop =>
    match Queue.pop q with
    | some (u, rest) => ([u], rest)
    | none => ([], q)
  | .drain => (Queue.drain q, [])
  | .restore (some stored) => ([], Queue.restore stored)
  -- the memory contents are replaced only after a successful load
  | .restore none => ([], q)

end TxGen.Queue
