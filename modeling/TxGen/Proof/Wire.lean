import TxGen.Proof.Concrete
import TxGen.Proof.Funding
import TxGen.Spec.Wire
import Mathlib.Algebra.Order.Floor.Div

/-!
# The fanout builder is exact

The size that `BuildFanout` computes in tagged-drop mode is the length of the serialized
transaction (`fanoutRawSize_eq_length`), for every number of outputs that passes its first
guard and so across every form of the variable-length count. With it, the builder succeeds
exactly when the transaction is small enough and its input pays the fee and a satoshi for
every output (`buildFanout_exact`).
-/

namespace TxGen

open Lib Funding

variable {Hash : Type} {sdk : SDK Hash}

/-! ## Lengths -/

@[simp] theorem length_littleEndian (width n : ℕ) : (littleEndian width n).length = width := by
  rw [littleEndian, List.length_map, List.length_range]

theorem length_varInt (n : ℕ) : (varInt n).length = varIntSize n := by
  unfold varInt varIntSize
  split_ifs <;> simp

theorem length_varScript (script : Bytes) :
    (varScript script).length = varIntSize script.length + script.length := by
  rw [varScript, List.length_append, length_varInt]

variable (hash : Hash → Fin 32 → Fin 256)

theorem TxInput.length_serialize (i : TxInput Hash) :
    (i.serialize hash).length =
      32 + 4 + varIntSize i.unlockingScript.length + i.unlockingScript.length + 4 := by
  simp only [TxInput.serialize, List.length_append, List.length_ofFn, length_littleEndian,
    length_varScript]
  omega

theorem TxOutput.length_serialize (o : TxOutput) :
    o.serialize.length = 8 + varIntSize o.lockingScript.length + o.lockingScript.length := by
  simp only [TxOutput.serialize, List.length_append, length_littleEndian, length_varScript]
  omega

/-- The fanout of the outpoint `txid:vout` into `n` outputs of `per` satoshis. -/
def fanoutTx (mode : Mode Hash) (txid : Hash) (vout n per : ℕ) : RawTx Hash :=
  ⟨[⟨txid, vout, opTrueScript⟩], List.replicate n ⟨per, mode.lockScript⟩⟩

variable {hash} {mode : Mode Hash} {instanceID : List Char}

theorem length_serialize_fanoutTx (hm : mode.TaggedDrop instanceID) (txid : Hash) (vout n per : ℕ) :
    ((fanoutTx mode txid vout n per).serialize hash).length = 51 + varIntSize n + n * 17 := by
  have hout : (TxOutput.serialize ⟨per, mode.lockScript⟩).length = 17 := by
    rw [TxOutput.length_serialize, length_taggedDropLockScript hm.2]
    rfl
  have hin : (TxInput.serialize hash ⟨txid, vout, opTrueScript⟩).length = 42 := by
    rw [TxInput.length_serialize]
    rfl
  have hone : varIntSize 1 = 1 := rfl
  simp only [RawTx.serialize, fanoutTx, List.length_append, length_littleEndian, length_varInt,
    List.length_singleton, List.flatMap_cons, List.flatMap_nil, List.append_nil, hin, hone,
    List.length_replicate, List.length_flatMap, List.map_replicate, List.sum_replicate, hout,
    smul_eq_mul]
  omega

/-- **The computed size is the size on the wire**, whenever it is computed. -/
theorem fanoutRawSize_eq_length (hm : mode.TaggedDrop instanceID) {n : ℕ} (hn : n ≤ maxTxBytes)
    (txid : Hash) (vout per : ℕ) :
    mode.fanoutRawSize n = ((fanoutTx mode txid vout n per).serialize hash).length := by
  rw [length_serialize_fanoutTx hm, fanoutRawSize_taggedDrop hm hn, estimateTaggedDropFanoutBytes_eq]

/-! ## Wrapping -/

/-- No sum or product of the size and the fee of a fanout with `count` outputs leaves the
range of a `uint64`; the fee is computed for transactions that are small enough. -/
structure Mode.NoWrap (mode : Mode Hash) (count : ℕ) : Prop where
  input : 32 + 4 + varIntSize opTrueScript.length + opTrueScript.length + 4 < 2 ^ 64
  output : outputValueBytes + varIntSize mode.lockScript.length + mode.lockScript.length < 2 ^ 64
  raw : txFrameBytes + varIntSize 1 + mode.inputSize + varIntSize count +
    count * (outputValueBytes + varIntSize mode.lockScript.length + mode.lockScript.length) < 2 ^ 64
  fee : mode.fanoutRawSize count ≤ maxTxBytes →
    mode.fanoutRawSize count * feeRateSatsPerKB + 999 < 2 ^ 64

theorem Mode.noWrap (mode : Mode Hash) {count : ℕ} (hc : count ≤ maxTxBytes) :
    mode.NoWrap count := by
  have hl := mode.lockScript_short
  have hi := mode.inputSize_bounds
  have hv := varIntSize_le count
  -- a lock script takes less than 253 bytes, so an output takes at most 262
  have hscript : varIntSize mode.lockScript.length = 1 := by rw [varIntSize, if_pos hl]
  have hmul : count * (outputValueBytes + 1 + mode.lockScript.length) ≤ maxTxBytes * 262 :=
    Nat.mul_le_mul hc (by rw [outputValueBytes]; omega)
  rw [maxTxBytes] at hmul
  refine ⟨by decide, ?_, ?_, fun hsize => ?_⟩
  · rw [hscript, outputValueBytes]
    omega
  · rw [hscript, txFrameBytes, show varIntSize 1 = 1 from rfl]
    omega
  · rw [maxTxBytes] at hsize
    rw [feeRateSatsPerKB]
    omega

/-! ## The builder -/

section Build

variable {u : UTXO} {txid : Hash} {n : ℤ}

/-- The size of the serialized fanout of `txid:vout` into `n` outputs, which is the same
for every amount. -/
def fanoutWireSize (hash : Hash → Fin 32 → Fin 256) (mode : Mode Hash) (txid : Hash) (vout n : ℕ) :
    ℕ :=
  ((fanoutTx mode txid vout n 0).serialize hash).length

/-- The fee for `size` bytes at 100 satoshis per 1000 bytes, rounded up. -/
def wireFee (size : ℕ) : ℕ := size * 100 ⌈/⌉ 1000

theorem fanoutFee_eq_wireFee {size : ℕ} (h : size ≤ maxTxBytes) : fanoutFee size = wireFee size := by
  rw [fanoutFee_eq h, wireFee, Nat.ceilDiv_eq_add_pred_div]
  omega

/-- A fanout that is small enough and can be paid for is built as `fanoutTx`. -/
theorem buildFanout_of_fits (hm : mode.TaggedDrop instanceID)
    (hu : sdk.newHashFromHex u.txHash = some txid) (hn : 1 ≤ n) (hcount : n.toNat ≤ maxTxBytes)
    (hsize : mode.fanoutRawSize n.toNat ≤ maxTxBytes)
    (hvalue : fanoutFee (mode.fanoutRawSize n.toNat) + n.toNat ≤ u.value) :
    ∃ tx, buildFanout sdk u n mode = .ok (tx, (List.range n.toNat).map fun vout =>
      ⟨tx.txID, vout, (u.value - fanoutFee (mode.fanoutRawSize n.toNat)) / n.toNat, 0⟩) := by
  have hpos : 0 < n.toNat := by omega
  have hper : (u.value - fanoutFee (mode.fanoutRawSize n.toNat)) / n.toNat ≠ 0 := by
    have := (Nat.one_le_div_iff hpos).2 (Nat.le_sub_of_add_le' hvalue)
    omega
  simp only [buildFanout]
  rw [if_neg (by omega), if_neg (by omega), if_neg (by omega), if_neg (by omega), if_neg hper]
  simp only [newInput, hu, finalize, hm.1]
  exact ⟨_, rfl⟩

/-- What a successful call has checked, and what it returns. -/
theorem buildFanout_fits (hm : mode.TaggedDrop instanceID)
    (hu : sdk.newHashFromHex u.txHash = some txid) {tx : Tx Hash} {outs : List UTXO}
    (h : buildFanout sdk u n mode = .ok (tx, outs)) :
    1 ≤ n ∧ n.toNat ≤ maxTxBytes ∧ mode.fanoutRawSize n.toNat ≤ maxTxBytes ∧
      fanoutFee (mode.fanoutRawSize n.toNat) + n.toNat ≤ u.value ∧
      tx.ef.raw = fanoutTx mode txid u.txPos n.toNat
        ((u.value - fanoutFee (mode.fanoutRawSize n.toNat)) / n.toNat) ∧
      tx.txID = sdk.txID tx.ef.raw ∧
      outs = (List.range n.toNat).map fun vout =>
        ⟨tx.txID, vout, (u.value - fanoutFee (mode.fanoutRawSize n.toNat)) / n.toNat, 0⟩ := by
  simp only [buildFanout] at h
  split_ifs at h with hn hmax hsize hfee hper
  have hpos : 0 < n.toNat := by omega
  have hone := (Nat.one_le_div_iff hpos).1 (Nat.pos_of_ne_zero hper)
  simp only [newInput, hu, finalize, hm.1] at h
  cases h
  refine ⟨by omega, by omega, by omega, by omega, rfl, rfl, rfl⟩

/-- **`BuildFanout` is exact.** It succeeds exactly when there is an output, the transaction
is small enough on the wire and the input pays the fee and a satoshi for every output; it
returns the outputs of that transaction, and what the division leaves goes to the fee. -/
theorem buildFanout_exact (sdk : SDK Hash) (hash : Hash → Fin 32 → Fin 256) {mode : Mode Hash}
    {instanceID : List Char} (hm : mode.TaggedDrop instanceID) {u : UTXO} {txid : Hash}
    (hu : sdk.newHashFromHex u.txHash = some txid) (n : ℤ) {size fee : ℕ}
    (hsize : size = fanoutWireSize hash mode txid u.txPos n.toNat) (hfee : fee = wireFee size) :
    ((∃ built, buildFanout sdk u n mode = .ok built) ↔
        1 ≤ n ∧ size ≤ maxTxBytes ∧ fee + n.toNat ≤ u.value) ∧
      (∀ tx outs, buildFanout sdk u n mode = .ok (tx, outs) → ∃ per, 1 ≤ per ∧
        per = (u.value - fee) / n.toNat ∧
        tx.ef.raw = fanoutTx mode txid u.txPos n.toNat per ∧
        (tx.ef.raw.serialize hash).length = size ∧
        tx.txID = sdk.txID tx.ef.raw ∧
        outs = (List.range n.toNat).map (fun vout => ⟨tx.txID, vout, per, 0⟩) ∧
        n.toNat * per + fee ≤ u.value ∧ u.value < n.toNat * per + fee + n.toNat) ∧
      (n.toNat ≤ maxTxBytes → mode.fanoutRawSize n.toNat = size ∧ mode.NoWrap n.toNat) := by
  have hlen : size = 51 + varIntSize n.toNat + n.toNat * 17 := by
    rw [hsize, fanoutWireSize, length_serialize_fanoutTx hm]
  -- a count that the first guard refuses is too large on the wire as well
  have hraw : n.toNat ≤ maxTxBytes → mode.fanoutRawSize n.toNat = size := by
    intro hcount
    rw [hsize, fanoutWireSize]
    exact fanoutRawSize_eq_length hm hcount txid u.txPos 0
  have hcount : size ≤ maxTxBytes → n.toNat ≤ maxTxBytes := by
    intro h
    omega
  have hpay : size ≤ maxTxBytes → fanoutFee (mode.fanoutRawSize n.toNat) = fee := by
    intro h
    rw [hraw (hcount h), fanoutFee_eq_wireFee h, hfee]
  refine ⟨⟨?_, ?_⟩, ?_, fun h => ⟨hraw h, mode.noWrap h⟩⟩
  · rintro ⟨⟨tx, outs⟩, hb⟩
    obtain ⟨hn, hc, hs, hv, -⟩ := buildFanout_fits hm hu hb
    rw [hraw hc] at hs
    exact ⟨hn, hs, hpay hs ▸ hv⟩
  · rintro ⟨hn, hs, hv⟩
    obtain ⟨tx, hb⟩ := buildFanout_of_fits hm hu hn (hcount hs) (by rw [hraw (hcount hs)]; exact hs)
      (by rw [hpay hs]; exact hv)
    exact ⟨_, hb⟩
  · intro tx outs hb
    obtain ⟨hn, hc, hs, hv, htx, hid, houts⟩ := buildFanout_fits hm hu hb
    rw [hraw hc] at hs
    rw [hpay hs] at hv htx houts
    have hpos : 0 < n.toNat := by omega
    have hdiv := Nat.div_add_mod (u.value - fee) n.toNat
    have hmod := Nat.mod_lt (u.value - fee) hpos
    refine ⟨(u.value - fee) / n.toNat, ?_, rfl, htx, ?_, hid, houts, by omega, by omega⟩
    · exact (Nat.one_le_div_iff hpos).2 (by omega)
    · rw [htx, length_serialize_fanoutTx hm, hlen]

end Build

/-- A fanout into 300 outputs, whose count takes three bytes, pays 516 satoshis: 816 are
enough, and 815 are not. -/
theorem buildFanout_exact_300 :
    (∃ built, buildFanout Concrete.plainSDK (Concrete.funding 0 816) 300 (Concrete.tagMode 1) =
        .ok built) ∧
      ¬ ∃ built, buildFanout Concrete.plainSDK (Concrete.funding 0 815) 300 (Concrete.tagMode 1) =
        .ok built := by
  have hm : (Concrete.tagMode 1).TaggedDrop ['t', 'a', 'g', 't', 'a', 'g'] := by decide
  have hsize : ∀ vout, 5154 = fanoutWireSize (fun _ _ => 0) (Concrete.tagMode 1) [102] vout 300 := by
    intro vout
    rw [fanoutWireSize, length_serialize_fanoutTx hm]
    rfl
  have hfee : 516 = wireFee 5154 := by decide
  have htxid : ∀ value,
      Concrete.plainSDK.newHashFromHex (Concrete.funding 0 value).txHash = some [102] := fun _ => rfl
  constructor
  · exact (buildFanout_exact Concrete.plainSDK (fun _ _ => 0) hm (htxid 816) 300 (hsize 0) hfee).1.2
      (by decide)
  · intro h
    have hfits := (buildFanout_exact Concrete.plainSDK (fun _ _ => 0) hm (htxid 815) 300 (hsize 0)
      hfee).1.1 h
    exact absurd hfits (by decide)

end TxGen
