import TxGen.Spec.Engine

/-!
# What the builders return

One specification per builder. Every pending record the engine writes is `Built`:
it spends one UTXO, its created UTXOs are the outputs of its transaction, and they
are worth less than the UTXO spent. Under distinct txids a record is determined by
its txid up to the time it was saved.
-/

namespace TxGen

variable {Hash : Type} {sdk : SDK Hash}

theorem bind_ok {ε α β : Type} {x : Except ε α} {f : α → Except ε β} {b : β}
    (h : (x >>= f) = .ok b) : ∃ a, x = .ok a ∧ f a = .ok b := by
  cases x with
  | error e => cases h
  | ok a => exact ⟨a, rfl, h⟩

theorem bind_error {ε α β : Type} {x : Except ε α} {f : α → Except ε β} {e : ε}
    (h : (x >>= f) = .error e) : x = .error e ∨ ∃ a, x = .ok a ∧ f a = .error e := by
  cases x with
  | error e' =>
    cases h
    exact Or.inl rfl
  | ok a => exact Or.inr ⟨a, rfl, h⟩

/-- The outpoint an input spends. -/
def TxInput.outpoint (i : TxInput Hash) : Hash × ℕ := (i.sourceTXID, i.sourceTxOutIndex)

/-- The only input of `raw` spends `u`. -/
def Spends (sdk : SDK Hash) (raw : RawTx Hash) (u : UTXO) : Prop :=
  ∃ h, sdk.newHashFromHex u.txHash = some h ∧ raw.inputs.map TxInput.outpoint = [(h, u.txPos)]

/-- The outputs of a transaction as UTXOs. -/
def createdBy (txid : Bytes) (outputs : List TxOutput) : List UTXO :=
  outputs.mapIdx fun i o => ⟨txid, i, o.satoshis, 0⟩

/-! ## Outpoints -/

theorem outpoint_of_parse {u : UTXO} {h : Hash} (hu : sdk.newHashFromHex u.txHash = some h) :
    sdk.outpoint u = (.inl h, u.txPos) := by
  rw [SDK.outpoint, hu]

theorem outpoint_congr {u v : UTXO} (hh : u.txHash = v.txHash) (hp : u.txPos = v.txPos) :
    sdk.outpoint u = sdk.outpoint v := by
  rw [SDK.outpoint, SDK.outpoint, hh, hp]

theorem outpoint_parse {u v : UTXO} (h : sdk.outpoint u = sdk.outpoint v) :
    sdk.newHashFromHex u.txHash = sdk.newHashFromHex v.txHash := by
  rw [SDK.outpoint, SDK.outpoint] at h
  cases hu : sdk.newHashFromHex u.txHash <;> cases hv : sdk.newHashFromHex v.txHash <;>
    rw [hu, hv] at h <;> simp_all

theorem newHashFromHex_txID (sdk : SDK Hash) (raw : RawTx Hash) :
    sdk.newHashFromHex (sdk.txID raw) = some (sdk.txHash raw) :=
  sdk.newHashFromHex_hashString _

/-- Distinct transactions have distinct txids, also as strings. -/
theorem txID_injective (hinj : Function.Injective sdk.txHash) {a b : RawTx Hash}
    (h : sdk.txID a = sdk.txID b) : a = b := by
  have := congrArg sdk.newHashFromHex h
  rw [newHashFromHex_txID, newHashFromHex_txID] at this
  exact hinj (Option.some.inj this)

theorem Spends.outpoint_eq {raw : RawTx Hash} {u v : UTXO} (hu : Spends sdk raw u)
    (hv : Spends sdk raw v) : sdk.outpoint u = sdk.outpoint v := by
  obtain ⟨h, hh, hi⟩ := hu
  obtain ⟨h', hh', hi'⟩ := hv
  rw [hi] at hi'
  simp only [List.cons.injEq, Prod.mk.injEq, and_true] at hi'
  rw [outpoint_of_parse hh, outpoint_of_parse hh', hi'.1, hi'.2]

/-- An input of `raw` names the outpoint of the UTXO it spends. -/
theorem Spends.outpoint_of_input {raw : RawTx Hash} {u : UTXO} (hu : Spends sdk raw u)
    {i : TxInput Hash} (hi : i ∈ raw.inputs) :
    sdk.outpoint u = (.inl i.outpoint.1, i.outpoint.2) := by
  obtain ⟨h, hh, hin⟩ := hu
  have hmem : i.outpoint ∈ raw.inputs.map TxInput.outpoint := List.mem_map_of_mem hi
  rw [hin, List.mem_singleton] at hmem
  rw [outpoint_of_parse hh, hmem]

/-! ## Created UTXOs -/

theorem mem_createdBy {txid : Bytes} {outputs : List TxOutput} {u : UTXO} :
    u ∈ createdBy txid outputs ↔
      u.txHash = txid ∧ u.height = 0 ∧ ∃ o, outputs[u.txPos]? = some o ∧ o.satoshis = u.value := by
  rw [createdBy, List.mem_mapIdx]
  constructor
  · rintro ⟨i, hi, rfl⟩
    exact ⟨rfl, rfl, _, List.getElem?_eq_getElem hi, rfl⟩
  · rintro ⟨rfl, hh, o, ho, hv⟩
    obtain ⟨hi, rfl⟩ := List.getElem?_eq_some_iff.1 ho
    refine ⟨u.txPos, hi, ?_⟩
    cases u
    simp_all

theorem createdBy_eq_of_txPos {txid : Bytes} {outputs : List TxOutput} {u v : UTXO}
    (hu : u ∈ createdBy txid outputs) (hv : v ∈ createdBy txid outputs) (h : u.txPos = v.txPos) :
    u = v := by
  obtain ⟨hu1, hu2, o, hu3, hu4⟩ := mem_createdBy.1 hu
  obtain ⟨hv1, hv2, o', hv3, hv4⟩ := mem_createdBy.1 hv
  rw [h, hv3] at hu3
  cases hu3
  cases u; cases v; simp_all

theorem nodup_createdBy (txid : Bytes) (outputs : List TxOutput) :
    (createdBy txid outputs).Nodup := by
  rw [List.nodup_iff_injective_getElem]
  intro i j h
  have := congrArg UTXO.txPos h
  exact Fin.ext (by simpa [createdBy] using this)

theorem createdBy_replicate (txid : Bytes) (n per : ℕ) (s : Bytes) :
    createdBy txid (List.replicate n ⟨per, s⟩) = (List.range n).map fun i => ⟨txid, i, per, 0⟩ := by
  apply List.ext_getElem <;> simp [createdBy]

theorem sum_createdBy (txid : Bytes) (outputs : List TxOutput) :
    ((createdBy txid outputs).map UTXO.value).sum = (outputs.map TxOutput.satoshis).sum := by
  congr 1
  apply List.ext_getElem <;> simp [createdBy]

/-! ## Sizes and fees -/

theorem Mode.inputSize_bounds (m : Mode Hash) : 41 ≤ m.inputSize ∧ m.inputSize < 41 + 0xfd := by
  have hlen : ∀ n, n < 0xfd → u64 (32 + 4 + varIntSize n + n + 4) = 41 + n := by
    intro n hn
    rw [varIntSize, if_pos hn, u64]
    omega
  unfold Mode.inputSize
  cases hu : m.unlocker with
  | none => simp only [hlen opTrueScript.length (by decide)]; exact ⟨by decide, by decide⟩
  | some ul => simp only [hlen _ (m.unlocker_short ul hu)]; have := m.unlocker_short ul hu; omega

theorem varIntSize_le (n : ℕ) : 1 ≤ varIntSize n ∧ varIntSize n ≤ 9 := by
  unfold varIntSize
  split_ifs <;> omega

/-- No size computation of a fanout overflows. -/
theorem Mode.fanoutRawSize_eq (m : Mode Hash) {count : ℕ} (hc : count ≤ maxTxBytes) :
    m.fanoutRawSize count =
      9 + m.inputSize + varIntSize count + count * (9 + m.lockScript.length) := by
  have hl := m.lockScript_short
  have hi := m.inputSize_bounds
  have hv := varIntSize_le count
  have hout : u64 (outputValueBytes + varIntSize m.lockScript.length + m.lockScript.length)
      = 9 + m.lockScript.length := by
    rw [varIntSize, if_pos hl, u64, outputValueBytes]; omega
  have hmul : count * (9 + m.lockScript.length) ≤ maxTxBytes * 262 :=
    Nat.mul_le_mul hc (by omega)
  rw [maxTxBytes] at hmul
  simp only [Mode.fanoutRawSize, hout]
  rw [u64, txFrameBytes, show varIntSize 1 = 1 from rfl]
  omega

theorem fanoutFee_eq {rawSize : ℕ} (h : rawSize ≤ maxTxBytes) :
    fanoutFee rawSize = (rawSize * 100 + 999) / 1000 := by
  rw [maxTxBytes] at h
  rw [fanoutFee, u64, feeRateSatsPerKB]
  omega

theorem fanoutFee_pos (m : Mode Hash) {count : ℕ} (hc : count ≤ maxTxBytes)
    (h : m.fanoutRawSize count ≤ maxTxBytes) : 0 < fanoutFee (m.fanoutRawSize count) := by
  have h9 := m.fanoutRawSize_eq hc
  rw [fanoutFee_eq h]
  omega

/-! ## The builders -/

theorem newInput_ok {u : UTXO} {mode : Mode Hash} {i : TxInput Hash}
    (h : newInput sdk u mode = .ok i) :
    sdk.newHashFromHex u.txHash = some i.sourceTXID ∧ i.sourceTxOutIndex = u.txPos := by
  rw [newInput] at h
  split at h
  · cases h
  · rename_i txid hu
    cases h
    exact ⟨hu, rfl⟩

/-- Signing keeps the outpoints and the outputs. -/
theorem finalize_ok {raw : RawTx Hash} {source : TxOutput} {mode : Mode Hash} {tx : Tx Hash}
    (h : finalize sdk raw source mode = .ok tx) :
    tx.txID = sdk.txID tx.ef.raw ∧ tx.ef.raw.outputs = raw.outputs ∧
      tx.ef.raw.inputs.map TxInput.outpoint = raw.inputs.map TxInput.outpoint := by
  rw [finalize] at h
  split at h
  · cases h; exact ⟨rfl, rfl, rfl⟩
  · split at h
    · cases h
    · cases h
      refine ⟨rfl, rfl, ?_⟩
      rw [List.map_map]; rfl

theorem finalize_spends {u : UTXO} {outputs : List TxOutput} {source : TxOutput} {mode : Mode Hash}
    {i : TxInput Hash} {tx : Tx Hash} (hi : newInput sdk u mode = .ok i)
    (h : finalize sdk ⟨[i], outputs⟩ source mode = .ok tx) :
    tx.txID = sdk.txID tx.ef.raw ∧ tx.ef.raw.outputs = outputs ∧ Spends sdk tx.ef.raw u := by
  obtain ⟨hid, hout, hin⟩ := finalize_ok h
  obtain ⟨hh, hp⟩ := newInput_ok hi
  refine ⟨hid, hout, i.sourceTXID, hh, ?_⟩
  rw [hin, ← hp]; rfl

/-- **`BuildFanout`** spends `u` into `n` equal positive outputs and pays a fee. -/
theorem buildFanout_ok {u : UTXO} {n : ℤ} {mode : Mode Hash} {tx : Tx Hash} {outs : List UTXO}
    (h : buildFanout sdk u n mode = .ok (tx, outs)) :
    tx.txID = sdk.txID tx.ef.raw ∧ Spends sdk tx.ef.raw u ∧
      outs = createdBy tx.txID tx.ef.raw.outputs ∧ 0 < n ∧
      ∃ per, 0 < per ∧ n.toNat * per < u.value ∧
        tx.ef.raw.outputs = List.replicate n.toNat ⟨per, mode.lockScript⟩ := by
  simp only [buildFanout] at h
  split_ifs at h with hn hmax hsize hfee hper
  obtain ⟨i, hi, h⟩ := bind_ok h
  obtain ⟨tx', htx, h⟩ := bind_ok h
  cases h
  obtain ⟨hid, hout, hsp⟩ := finalize_spends hi htx
  refine ⟨hid, hsp, ?_, by omega, _, Nat.pos_of_ne_zero hper, ?_, hout⟩
  · rw [hout, createdBy_replicate]
  · have hpos := fanoutFee_pos mode (Nat.le_of_not_lt hmax) (Nat.le_of_not_lt hsize)
    calc n.toNat * ((u.value - fanoutFee (mode.fanoutRawSize n.toNat)) / n.toNat)
        ≤ u.value - fanoutFee (mode.fanoutRawSize n.toNat) := Nat.mul_div_le _ _
      _ < u.value := by omega

/-- **`BuildSustain`** spends `u` into one output worth less. -/
theorem buildSustain_ok {u : UTXO} {mode : Mode Hash} {tx : Tx Hash} {next : UTXO}
    (h : buildSustain sdk u mode = .ok (tx, next)) :
    tx.txID = sdk.txID tx.ef.raw ∧ Spends sdk tx.ef.raw u ∧
      [next] = createdBy tx.txID tx.ef.raw.outputs ∧ 0 < u.value ∧
      next.value = u.value - mode.sustainFee ∧
      tx.ef.raw.outputs = [⟨u.value - mode.sustainFee, mode.lockScript⟩] := by
  have hval : (if u.value > mode.sustainFee then u.value - mode.sustainFee else 0) =
      u.value - mode.sustainFee := by split_ifs <;> omega
  simp only [buildSustain, hval] at h
  split_ifs at h with h0
  obtain ⟨i, hi, h⟩ := bind_ok h
  obtain ⟨tx', htx, h⟩ := bind_ok h
  cases h
  obtain ⟨hid, hout, hsp⟩ := finalize_spends hi htx
  refine ⟨hid, hsp, ?_, Nat.pos_of_ne_zero h0, rfl, hout⟩
  rw [hout]; rfl

/-! ## Pending records -/

/-- The pending record `p` is that of the transaction `raw`, which spends `u`. -/
structure Built (sdk : SDK Hash) (p : PendingBroadcast Hash) (u : UTXO) (raw : RawTx Hash) :
    Prop where
  ef : p.ef.map EF.raw = some raw
  txID : p.txID = sdk.txID raw
  spent : p.spent = [u]
  spends : Spends sdk raw u
  created : p.created = createdBy p.txID raw.outputs
  less : (p.created.map UTXO.value).sum < u.value

/-- The record of a fanout. -/
theorem fanoutPending_ok {u : UTXO} {n : ℤ} {mode : Mode Hash} {stage : Stage}
    {p : PendingBroadcast Hash} (h : fanoutPending sdk u n mode stage = .ok p) :
    (∃ raw, Built sdk p u raw) ∧ p.stage = some stage ∧ 0 < n ∧ p.created.length = n.toNat ∧
      ∀ v ∈ p.created, v.value ≠ 0 := by
  obtain ⟨⟨tx, outs⟩, hb, h⟩ := bind_ok h
  cases h
  obtain ⟨hid, hsp, rfl, hn, per, hper, hlt, hout⟩ := buildFanout_ok hb
  have hcr : createdBy tx.txID tx.ef.raw.outputs =
      (List.range n.toNat).map fun i => ⟨tx.txID, i, per, 0⟩ := by
    rw [hout, createdBy_replicate]
  refine ⟨⟨tx.ef.raw, rfl, hid, rfl, hsp, rfl, ?_⟩, rfl, hn, ?_, ?_⟩
  · show ((createdBy tx.txID tx.ef.raw.outputs).map UTXO.value).sum < u.value
    rw [sum_createdBy, hout]
    simpa using hlt
  · show (createdBy tx.txID tx.ef.raw.outputs).length = _
    simp [hcr]
  · intro v hv
    have hv' : v ∈ createdBy tx.txID tx.ef.raw.outputs := hv
    rw [hcr, List.mem_map] at hv'
    obtain ⟨i, -, rfl⟩ := hv'
    exact hper.ne'

/-- The record of a sustain hop. -/
theorem sustainPending_ok {u : UTXO} {mode : Mode Hash} {p : PendingBroadcast Hash}
    (h : sustainPending sdk u mode = .ok p) :
    (∃ raw, Built sdk p u raw) ∧ p.stage = some .l2Done ∧
      ∃ next, p.created = [next] ∧ next.value = u.value - mode.sustainFee := by
  obtain ⟨⟨tx, next⟩, hb, h⟩ := bind_ok h
  cases h
  obtain ⟨hid, hsp, hcr, hpos, hval, -⟩ := buildSustain_ok hb
  have hfee := mode.sustainFee.pos
  exact ⟨⟨tx.ef.raw, rfl, hid, rfl, hsp, hcr, by simp; omega⟩, rfl, next, rfl, hval⟩

theorem Task.build_ok {t : Task Hash} {mode : Mode Hash} {p : PendingBroadcast Hash}
    (h : t.build sdk mode = .ok p) : ∃ raw, Built sdk p t.utxo raw := by
  unfold Task.build at h
  split at h
  · exact (fanoutPending_ok h).1
  · exact (fanoutPending_ok h).1
  · exact (sustainPending_ok h).1

/-- Every output of a built transaction is locked by the mode's script. -/
theorem Task.build_scripts {t : Task Hash} {mode : Mode Hash} {p : PendingBroadcast Hash}
    {raw : RawTx Hash} (h : t.build sdk mode = .ok p) (hraw : p.ef.map EF.raw = some raw) :
    ∀ o ∈ raw.outputs, o.lockingScript = mode.lockScript := by
  have hfan : ∀ stage, fanoutPending sdk t.utxo t.n mode stage = .ok p →
      ∀ o ∈ raw.outputs, o.lockingScript = mode.lockScript := by
    intro stage h o ho
    obtain ⟨⟨tx, outs⟩, hb, h⟩ := bind_ok h
    cases h
    obtain ⟨-, -, -, -, per, -, -, hout⟩ := buildFanout_ok hb
    rw [← Option.some.inj hraw, hout] at ho
    rw [List.eq_of_mem_replicate ho]
  unfold Task.build at h
  split at h
  · exact hfan _ h
  · exact hfan _ h
  · intro o ho
    obtain ⟨⟨tx, next⟩, hb, h⟩ := bind_ok h
    cases h
    obtain ⟨-, -, -, -, -, hout⟩ := buildSustain_ok hb
    rw [← Option.some.inj hraw, hout] at ho
    rw [List.mem_singleton.1 ho]

namespace Built

variable {p p' : PendingBroadcast Hash} {u u' v v' : UTXO} {raw raw' : RawTx Hash}

theorem withSavedAt (h : Built sdk p u raw) (t : ℕ) : Built sdk { p with savedAt := t } u raw :=
  ⟨h.ef, h.txID, h.spent, h.spends, h.created, h.less⟩

theorem parse_txID (h : Built sdk p u raw) : sdk.newHashFromHex p.txID = some (sdk.txHash raw) := by
  rw [h.txID]; exact newHashFromHex_txID sdk raw

theorem created_outpoint (h : Built sdk p u raw) (hv : v ∈ p.created) :
    sdk.outpoint v = (.inl (sdk.txHash raw), v.txPos) := by
  rw [h.created] at hv
  apply outpoint_of_parse
  rw [(mem_createdBy.1 hv).1, h.parse_txID]

/-- Created outputs with the same outpoint come from the same transaction. -/
theorem created_inj (hinj : Function.Injective sdk.txHash) (h : Built sdk p u raw)
    (h' : Built sdk p' u' raw') (hv : v ∈ p.created) (hv' : v' ∈ p'.created)
    (he : sdk.outpoint v = sdk.outpoint v') : v = v' ∧ raw = raw' := by
  rw [h.created_outpoint hv, h'.created_outpoint hv'] at he
  simp only [Prod.mk.injEq, Sum.inl.injEq] at he
  have hr : raw = raw' := hinj he.1
  have hid : p.txID = p'.txID := by rw [h.txID, h'.txID, hr]
  rw [h.created] at hv
  rw [h'.created, ← hid, ← hr] at hv'
  exact ⟨createdBy_eq_of_txPos hv hv' he.2, hr⟩

theorem created_nodup (h : Built sdk p u raw) : p.created.Nodup := by
  rw [h.created]; exact nodup_createdBy _ _

end Built

end TxGen
