import TxGen.Lib.Code
import TxGen.Proof.Store
import TxGen.Spec.World

/-!
# A concrete SDK

An SDK for which the assumptions on txids hold, so that the model can be run: the
hash of a transaction is a self-delimiting encoding of it, and a txid is printed as
it is. With it, a tagged-drop mode.
-/

namespace TxGen.Concrete

open Lib

/-- A number, in decimal, ended by a colon. -/
def encNat (n : ℕ) : Bytes := appendUint n ++ [58]

/-- A byte string after its length. -/
def encBytes (b : Bytes) : Bytes := encNat b.length ++ b

/-- A list of encoded elements, each after a 1, ended by a 0. -/
def encList {α : Type} (enc : α → Bytes) (l : List α) : Bytes :=
  l.flatMap (fun a => 1 :: enc a) ++ [0]

def encOutput (o : TxOutput) : Bytes := encNat o.satoshis ++ encBytes o.lockingScript

def encInput (i : TxInput Bytes) : Bytes :=
  encBytes i.sourceTXID ++ (encNat i.sourceTxOutIndex ++ encBytes i.unlockingScript)

def encTx (raw : RawTx Bytes) : Bytes :=
  encList encInput raw.inputs ++ encList encOutput raw.outputs

theorem selfDelimiting_encNat : SelfDelimiting encNat :=
  SelfDelimiting.terminated (Function.LeftInverse.injective readUint_appendUint)
    sep_not_mem_appendUint

theorem selfDelimiting_encBytes : SelfDelimiting encBytes := selfDelimiting_encNat.withLength

theorem selfDelimiting_encOutput : SelfDelimiting encOutput := by
  have h := (selfDelimiting_encNat.pair selfDelimiting_encBytes).comp
    (g := fun o : TxOutput => (o.satoshis, o.lockingScript))
    (fun a b hab => by cases a; cases b; simpa using hab)
  exact h

theorem selfDelimiting_encInput : SelfDelimiting encInput := by
  have h := (selfDelimiting_encBytes.pair (selfDelimiting_encNat.pair selfDelimiting_encBytes)).comp
    (g := fun i : TxInput Bytes => (i.sourceTXID, i.sourceTxOutIndex, i.unlockingScript))
    (fun a b hab => by cases a; cases b; simpa using hab)
  exact h

/-- Distinct transactions have distinct encodings. -/
theorem encTx_injective : Function.Injective encTx := by
  have h := ((selfDelimiting_encInput.list (m := 1) (z := 0) (by decide)).pair
    (selfDelimiting_encOutput.list (m := 1) (z := 0) (by decide))).comp
    (g := fun r : RawTx Bytes => (r.inputs, r.outputs))
    (fun a b hab => by cases a; cases b; simpa using hab)
  exact h.injective

/-- The SDK. -/
def plainSDK : SDK Bytes := ⟨some, id, encTx, fun _ => rfl⟩

theorem txID_plainSDK (raw : RawTx Bytes) : plainSDK.txID raw ≠ [] := by
  intro h
  have hlen := congrArg List.length h
  simp [SDK.txID, plainSDK, encTx, encList] at hlen

/-- A tagged-drop mode that pays `fee` per sustain hop. -/
def tagMode (fee : ℕ) : Mode Bytes where
  lockScript := [6, 116, 97, 103, 116, 97, 103, 0x75]
  unlocker := none
  sustainFee := fee.toPNat'
  lockScript_short := by decide
  unlocker_short := by simp

/-- Options with a UTXO source. -/
def options (fee : ℕ) (numChains fanoutSize : ℤ) : Options Bytes :=
  ⟨tagMode fee, numChains, fanoutSize, true⟩

/-- An output of a funding transaction. -/
def funding (vout value : ℕ) : UTXO := ⟨[102], vout, value, 100⟩

/-- A process starts with the UTXOs of the store, and its main goroutine takes `n`
steps. -/
def startup (o : Options Bytes) (n : ℕ) : List (Event Bytes) :=
  .start o [] :: List.replicate n (.main true)

/-- The world after a run from an empty store. -/
def runEmpty (es : List (Event Bytes)) : World Bytes :=
  (World.init Store.empty).run plainSDK es

/-- Goroutine `i` has its transaction accepted and committed. -/
def succeed (i : ℕ) : List (Event Bytes) :=
  [.task i (.save true 1), .task i (.broadcast .accepted), .task i (.commit true)]

/-- An attempt of goroutine `i` that is rejected. -/
def attempt (i : ℕ) : List (Event Bytes) :=
  [.task i (.save true 1), .task i (.broadcast .rejected), .task i (.clear true)]

/-- The main goroutine takes `n` steps. -/
def mains (n : ℕ) : List (Event Bytes) := List.replicate n (.main true)

/-- A store that holds one funding UTXO. -/
def funded (value : ℕ) : Store Bytes := Store.empty.saveUTXO (funding 0 value)

/-- The sustain hop of `u`. -/
def hop (fee : ℕ) (u : UTXO) : PendingBroadcast Bytes :=
  match sustainPending plainSDK u (tagMode fee) with
  | .ok p => p
  | .error _ => ⟨[], none, [], [], none, 0⟩

/-- A store with two chains, one of them at its last hop. -/
def twoChains : Store Bytes :=
  ((Store.empty.saveUTXO (funding 0 10)).saveUTXO (funding 1 5)).setStage .l2Done

end TxGen.Concrete
