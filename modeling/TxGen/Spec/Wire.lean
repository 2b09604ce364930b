import TxGen.Spec.Tx
import Mathlib.Data.List.OfFn

/-!
# Transactions on the wire

The standard serialization of a transaction, as the network counts its bytes. A txid
takes 32 bytes; which ones is up to the hash type.
-/

namespace TxGen

/-- The `width` bytes of `n`, least significant first. -/
def littleEndian (width n : ℕ) : Bytes :=
  (List.range width).map fun i => Fin.ofNat 256 (n / 256 ^ i)

/-- The variable-length encoding of `n`. -/
def varInt (n : ℕ) : Bytes :=
  if n < 0xfd then littleEndian 1 n
  else if n ≤ 0xffff then 0xfd :: littleEndian 2 n
  else if n ≤ 0xffffffff then 0xfe :: littleEndian 4 n
  else 0xff :: littleEndian 8 n

/-- A script after its length. -/
def varScript (script : Bytes) : Bytes := varInt script.length ++ script

/-- The version of every transaction, the sequence number of every input, and the lock
time. -/
def txVersion : ℕ := 1

def sequenceNumber : ℕ := 0xffffffff

def lockTime : ℕ := 0

variable {Hash : Type} (hash : Hash → Fin 32 → Fin 256)

/-- An input: the outpoint, the unlocking script and the sequence number. -/
def TxInput.serialize (i : TxInput Hash) : Bytes :=
  List.ofFn (hash i.sourceTXID) ++ littleEndian 4 i.sourceTxOutIndex ++
    varScript i.unlockingScript ++ littleEndian 4 sequenceNumber

/-- An output: the amount and the locking script. -/
def TxOutput.serialize (o : TxOutput) : Bytes :=
  littleEndian 8 o.satoshis ++ varScript o.lockingScript

/-- A transaction. -/
def RawTx.serialize (tx : RawTx Hash) : Bytes :=
  littleEndian 4 txVersion ++
    varInt tx.inputs.length ++ tx.inputs.flatMap (TxInput.serialize hash) ++
    varInt tx.outputs.length ++ tx.outputs.flatMap TxOutput.serialize ++
    littleEndian 4 lockTime

end TxGen
