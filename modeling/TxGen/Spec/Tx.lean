import Mathlib.Data.PNat.Defs
import Mathlib.Data.Fintype.Fin
import Mathlib.Algebra.Order.Ring.Nat

/-!
# Transactions and how they are built

`internal/txbuilder`: the fanouts that split one UTXO into many and the
one-in/one-out sustain hops. The Bitcoin SDK is a parameter (`SDK`): txid parsing
and printing, and the transaction hash. Everything else is the builders' own
arithmetic, over naturals with the `uint64` reductions written out.
-/

namespace TxGen

/-- A Go string is the list of its bytes. -/
abbrev Bytes := List (Fin 256)

/-- A byte literal is a number modulo 256. -/
instance Bytes.neZero : NeZero 256 := ⟨by decide⟩

/-- The bytes of an ASCII text. -/
def ascii (s : String) : Bytes := s.toList.map fun c => Fin.ofNat 256 c.toNat

/-- An unspent output that a generated transaction can spend (`txbuilder.UTXO`). -/
structure UTXO where
  txHash : Bytes
  txPos : ℕ
  value : ℕ
  height : ℤ
  deriving DecidableEq, Repr

/-- One output of a transaction. -/
structure TxOutput where
  satoshis : ℕ
  lockingScript : Bytes
  deriving DecidableEq, Repr

/-- One input of a transaction, over the SDK's hash type. -/
structure TxInput (Hash : Type) where
  sourceTXID : Hash
  sourceTxOutIndex : ℕ
  unlockingScript : Bytes
  deriving DecidableEq, Repr

/-- A transaction, without the version, sequence numbers and lock time, which are
the same in every transaction built here. -/
structure RawTx (Hash : Type) where
  inputs : List (TxInput Hash)
  outputs : List TxOutput
  deriving DecidableEq, Repr

/-- The parts of the Bitcoin SDK the builders call: `chainhash.NewHashFromHex`,
`Hash.String` and the transaction hash. Printing a hash and parsing it back gives
the hash. -/
structure SDK (Hash : Type) where
  newHashFromHex : Bytes → Option Hash
  hashString : Hash → Bytes
  txHash : RawTx Hash → Hash
  newHashFromHex_hashString : ∀ h, newHashFromHex (hashString h) = some h

/-- An unlocking template: the estimated script length and the signature of a
transaction's input, given the output it spends. -/
structure Unlocker (Hash : Type) where
  estimateLength : ℕ
  sign : RawTx Hash → TxOutput → Option Bytes

/-- `txbuilder.Mode`. The constructors replace a zero fee by the mode's default
and `ConfigureBootstrap` refuses one, so the fee of a mode in use is positive. The
scripts are those of the two constructors, tagged-drop (8 bytes, spent with 1) and
P2PKH (25 bytes, spent with an estimated 106), whose lengths fit in one byte. -/
structure Mode (Hash : Type) where
  lockScript : Bytes
  unlocker : Option (Unlocker Hash)
  sustainFee : ℕ+
  lockScript_short : lockScript.length < 0xfd
  unlocker_short : ∀ ul ∈ unlocker, ul.estimateLength < 0xfd

/-- `WithSustainFee`: a copy of the mode that pays `fee` per sustain hop. -/
def Mode.withSustainFee {Hash : Type} (m : Mode Hash) (fee : ℕ+) : Mode Hash :=
  { m with sustainFee := fee }

/-- An EF-encoded transaction, kept as what the bytes encode: the transaction and
the output its input spends. -/
structure EF (Hash : Type) where
  raw : RawTx Hash
  source : TxOutput
  deriving DecidableEq, Repr

/-- A built transaction (`txbuilder.Tx`). -/
structure Tx (Hash : Type) where
  txID : Bytes
  ef : EF Hash
  deriving DecidableEq, Repr

/-- Why a transaction cannot be built. -/
inductive BuildError
  | invalidFanoutCount
  | tooManyOutputs (n : ℤ)
  | txTooLarge (rawSize : ℕ)
  | cannotPayFee (value fee : ℕ)
  | noValueLeft (value : ℕ) (n : ℤ)
  | zeroValueUTXO
  | invalidTxID (txHash : Bytes)
  | sign
  deriving DecidableEq, Repr

/-! ## Sizes and fees -/

/-- Reduction of a `uint64` result. -/
def u64 (n : ℕ) : ℕ := n % 2 ^ 64

/-- The largest fanout transaction `BuildFanout` creates. -/
def maxTxBytes : ℕ := 100000000

def feeRateSatsPerKB : ℕ := 100

/-- The serialized size of an output's amount. -/
def outputValueBytes : ℕ := 8

/-- The version (4) and lock time (4) of a transaction. -/
def txFrameBytes : ℕ := 8

/-- The size of the variable-length encoding of `n`. -/
def varIntSize (n : ℕ) : ℕ :=
  if n < 0xfd then 1 else if n ≤ 0xffff then 3 else if n ≤ 0xffffffff then 5 else 9

/-- The tagged-drop unlocking script, a single `OP_TRUE`. -/
def opTrueScript : Bytes := [0x51]

variable {Hash : Type}

/-- The serialized size of one input spending an output of the mode. -/
def Mode.inputSize (m : Mode Hash) : ℕ :=
  let scriptLen := match m.unlocker with
    | some ul => ul.estimateLength
    | none => opTrueScript.length
  u64 (32 + 4 + varIntSize scriptLen + scriptLen + 4)

/-- The serialized size of a fanout with `count` outputs. -/
def Mode.fanoutRawSize (m : Mode Hash) (count : ℕ) : ℕ :=
  let lockScriptLen := m.lockScript.length
  let outputSize := u64 (outputValueBytes + varIntSize lockScriptLen + lockScriptLen)
  u64 (txFrameBytes + varIntSize 1 + m.inputSize + varIntSize count + count * outputSize)

/-- The fee for `rawSize` bytes, rounded up. -/
def fanoutFee (rawSize : ℕ) : ℕ := u64 (rawSize * feeRateSatsPerKB + 999) / 1000

/-! ## Building -/

variable (sdk : SDK Hash)

/-- The outpoint on the network that `utxo` names: the txid as the SDK reads it, or
the string itself when it is not a txid, with the output index. -/
def SDK.outpoint (utxo : UTXO) : (Hash ⊕ Bytes) × ℕ :=
  match sdk.newHashFromHex utxo.txHash with
  | some txid => (.inl txid, utxo.txPos)
  | none => (.inr utxo.txHash, utxo.txPos)

/-- The txid of a transaction as a string. -/
def SDK.txID (raw : RawTx Hash) : Bytes := sdk.hashString (sdk.txHash raw)

/-- `newInput`: an input spending `utxo`. A signed input gets its script from
`finalize`. -/
def newInput (utxo : UTXO) (mode : Mode Hash) : Except BuildError (TxInput Hash) :=
  match sdk.newHashFromHex utxo.txHash with
  | none => .error (.invalidTxID utxo.txHash)
  | some txid => .ok ⟨txid, utxo.txPos, if mode.unlocker.isSome then [] else opTrueScript⟩

/-- `finalize`: sign when the mode requires it, and encode. The source output is
attached by `newInput`, so the encoding has all it needs. -/
def finalize (raw : RawTx Hash) (source : TxOutput) (mode : Mode Hash) :
    Except BuildError (Tx Hash) :=
  match mode.unlocker with
  | none => .ok ⟨sdk.txID raw, raw, source⟩
  | some ul =>
    match ul.sign raw source with
    | none => .error .sign
    | some script =>
      let signed := { raw with inputs := raw.inputs.map fun i => { i with unlockingScript := script } }
      .ok ⟨sdk.txID signed, signed, source⟩

/-- `BuildFanout`: spend `utxo` into `n` equal outputs locked by `mode`. -/
def buildFanout (utxo : UTXO) (n : ℤ) (mode : Mode Hash) :
    Except BuildError (Tx Hash × List UTXO) :=
  if n ≤ 0 then .error .invalidFanoutCount
  else if maxTxBytes < n.toNat then .error (.tooManyOutputs n)
  else
    let count := n.toNat
    let rawSize := mode.fanoutRawSize count
    if maxTxBytes < rawSize then .error (.txTooLarge rawSize)
    else
      let fee := fanoutFee rawSize
      if utxo.value ≤ fee then .error (.cannotPayFee utxo.value fee)
      else
        let perOutput := (utxo.value - fee) / count
        if perOutput = 0 then .error (.noValueLeft utxo.value n)
        else do
          let input ← newInput sdk utxo mode
          let tx ← finalize sdk ⟨[input], List.replicate count ⟨perOutput, mode.lockScript⟩⟩
            ⟨utxo.value, mode.lockScript⟩ mode
          return (tx, (List.range count).map fun vout => ⟨tx.txID, vout, perOutput, 0⟩)

/-- `BuildSustain`: spend `utxo` into one output worth the mode's fee less. -/
def buildSustain (utxo : UTXO) (mode : Mode Hash) : Except BuildError (Tx Hash × UTXO) :=
  if utxo.value = 0 then .error .zeroValueUTXO
  else do
    let outValue := if utxo.value > mode.sustainFee then utxo.value - mode.sustainFee else 0
    let input ← newInput sdk utxo mode
    let tx ← finalize sdk ⟨[input], [⟨outValue, mode.lockScript⟩]⟩
      ⟨utxo.value, mode.lockScript⟩ mode
    return (tx, ⟨tx.txID, 0, outValue, 0⟩)

end TxGen
