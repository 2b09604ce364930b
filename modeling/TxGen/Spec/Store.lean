import TxGen.Lib.Table
import TxGen.Spec.Tx
import Mathlib.Data.Nat.Digits.Defs
import Mathlib.Order.Fin.Basic

/-!
# The state file

`internal/store`: a bucket of spendable UTXOs keyed by `txid:vout`, a bucket of
pending broadcasts keyed by txid, and the persisted bootstrap stage. Each
operation is one transaction of the file and is applied whole or not at all; that
a write may fail is part of the engine's step function, not of these operations.
-/

namespace TxGen

open Lib

/-- How far bootstrap has progressed (`engine.Stage`). -/
inductive Stage
  | none
  | l1Done
  | l2Partial
  | l2Done
  | unknown
  deriving DecidableEq, Repr

/-- A transaction written before it is broadcast, with the state transition that
applies once it is accepted (`store.PendingBroadcast`). `ef` is `none` for a record
that did not decode, `stage` is `none` for the empty string. -/
structure PendingBroadcast (Hash : Type) where
  txID : Bytes
  ef : Option (EF Hash)
  spent : List UTXO
  created : List UTXO
  stage : Option Stage
  savedAt : ℕ
  deriving DecidableEq, Repr

/-! ## Keys -/

/-- The decimal digits of `n`, most significant first (`strconv.AppendUint`). -/
def appendUint (n : ℕ) : Bytes :=
  if n = 0 then [48] else (Nat.digits 10 n).reverse.map fun d => Fin.ofNat 256 (48 + d)

/-- The bucket key `txid:vout`. -/
def utxoKey (txid : Bytes) (vout : ℕ) : Bytes := txid ++ 58 :: appendUint vout

/-- The key of a UTXO. -/
def UTXO.key (u : UTXO) : Bytes := utxoKey u.txHash u.txPos

/-- The contents of the state file: the `utxos` and `pending` buckets, each record
under its own key, and the persisted stage, `none` when it was never written. -/
structure Store (Hash : Type) where
  utxos : Table UTXO.key
  pending : Table (@PendingBroadcast.txID Hash)
  stage : Option Stage

namespace Store

variable {Hash : Type} (s : Store Hash)

/-- A new state file. -/
def empty : Store Hash := ⟨Table.empty, Table.empty, none⟩

/-- `SaveUTXO`: store `u`, replacing any UTXO with the same outpoint. -/
def saveUTXO (u : UTXO) : Store Hash := { s with utxos := s.utxos.insert u }

/-- `LoadAll`: every stored UTXO, in key order. -/
def loadAll : List UTXO := s.utxos.values

/-- `SetMeta` of the bootstrap stage. -/
def setStage (stage : Stage) : Store Hash := { s with stage := some stage }

/-- `SavePending`: store `p` under its txid. -/
def savePending (p : PendingBroadcast Hash) : Store Hash :=
  { s with pending := s.pending.insert p }

/-- `ClearPending`: remove the pending record of `txid`, if present. -/
def clearPending (txid : Bytes) : Store Hash := { s with pending := s.pending.erase txid }

/-- `LoadPending`: every pending broadcast. -/
def loadPending : List (PendingBroadcast Hash) := s.pending.values

/-- `CommitPending`: remove the pending record and the spent UTXOs, and store the
created ones. Zero-value outputs end their chain and are not stored. -/
def commitPending (txid : Bytes) (spent created : List UTXO) : Store Hash :=
  let pending := if txid = [] then s.pending else s.pending.erase txid
  let removed := spent.foldl (fun b u => b.erase u.key) s.utxos
  let utxos := created.foldl (fun b u => if u.value = 0 then b else b.insert u) removed
  { s with pending, utxos }

end Store

end TxGen
