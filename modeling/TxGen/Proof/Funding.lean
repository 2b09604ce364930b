import TxGen.Proof.Fanout
import TxGen.Proof.Tag
import TxGen.Spec.Funding

/-!
# The funding plan covers the fanouts

The script and the engine compute the size and fee of a tagged-drop fanout by the
same formula, the number of L1 outputs and the sizes of the L2 fanouts alike. So the
plan's value for the funding output is what the engine's L1 fanout needs to create
outputs that are each worth the most expensive L2 fanout (`FundingPlan.Sufficient`).
-/

namespace TxGen

open Lib

variable {Hash : Type} {sdk : SDK Hash}

/-! ## Building -/

/-- The SDK reads the UTXO's txid. -/
def Parsed (sdk : SDK Hash) (u : UTXO) : Prop := ∃ h, sdk.newHashFromHex u.txHash = some h

theorem Built.parsed {p : PendingBroadcast Hash} {u v : UTXO} {raw : RawTx Hash}
    (h : Built sdk p u raw) (hv : v ∈ p.created) : Parsed sdk v := by
  rw [h.created] at hv
  exact ⟨_, by rw [(mem_createdBy.1 hv).1, h.parse_txID]⟩

/-- The signatures the mode needs can be made. -/
def Mode.Signs (m : Mode Hash) : Prop :=
  ∀ ul ∈ m.unlocker, ∀ raw source, (ul.sign raw source).isSome = true

theorem Mode.signs_of_none {m : Mode Hash} (h : m.unlocker = none) : m.Signs := by
  intro ul hul
  rw [h] at hul
  cases hul

/-- A UTXO worth `value` can be fanned out under `m` into `n` outputs worth at least
`out` each. -/
structure Budget (m : Mode Hash) (n value out : ℕ) : Prop where
  pos : 0 < n
  count : n ≤ maxTxBytes
  size : m.fanoutRawSize n ≤ maxTxBytes
  value : n * out + fanoutFee (m.fanoutRawSize n) ≤ value
  out_pos : 0 < out

section Build

variable {m : Mode Hash} {u : UTXO} {n value out : ℕ}

theorem Budget.mono (h : Budget m n value out) {value' : ℕ} (hv : value ≤ value') :
    Budget m n value' out :=
  ⟨h.pos, h.count, h.size, h.value.trans hv, h.out_pos⟩

/-- **A fanout within its budget is built**, and pays every output its share. -/
theorem Budget.fanoutPending (h : Budget m n u.value out) (hm : m.unlocker = none)
    (hu : Parsed sdk u) (stage : Stage) :
    ∃ p, fanoutPending sdk u n m stage = .ok p ∧ p.created.length = n ∧
      ∀ v ∈ p.created, out ≤ v.value := by
  obtain ⟨txid, htxid⟩ := hu
  obtain ⟨hpos, hcount, hsize, hval, hout⟩ := h
  have hmul : 0 < n * out := Nat.mul_pos hpos hout
  have hper : out ≤ (u.value - fanoutFee (m.fanoutRawSize n)) / n := by
    rw [Nat.le_div_iff_mul_le hpos, Nat.mul_comm]
    omega
  have hbuild : ∃ tx, buildFanout sdk u n m = .ok (tx, (List.range n).map fun vout =>
      ⟨tx.txID, vout, (u.value - fanoutFee (m.fanoutRawSize n)) / n, 0⟩) := by
    simp only [buildFanout, Int.toNat_natCast]
    rw [if_neg (by omega), if_neg (by omega), if_neg (by omega), if_neg (by omega),
      if_neg (by omega)]
    simp only [newInput, htxid, finalize, hm]
    exact ⟨_, rfl⟩
  obtain ⟨tx, htx⟩ := hbuild
  refine ⟨⟨tx.txID, some tx.ef, [u], _, some stage, 0⟩, by rw [TxGen.fanoutPending, htx]; rfl, ?_, ?_⟩
  · rw [List.length_map, List.length_range]
  · intro v hv
    obtain ⟨i, -, rfl⟩ := List.mem_map.1 hv
    exact hper

/-- **A hop of a chain that is worth something is built.** -/
theorem finalize_of_signs (hm : m.Signs) (raw : RawTx Hash) (source : TxOutput) :
    ∃ tx, finalize sdk raw source m = .ok tx := by
  unfold finalize
  cases hul : m.unlocker with
  | none => exact ⟨_, rfl⟩
  | some ul =>
    obtain ⟨script, hs⟩ := Option.isSome_iff_exists.1 (hm ul hul raw source)
    simp only [hs]
    exact ⟨_, rfl⟩

theorem sustainPending_of_parsed (hm : m.Signs) (hu : Parsed sdk u) (h0 : 0 < u.value) :
    ∃ p, sustainPending sdk u m = .ok p := by
  obtain ⟨txid, htxid⟩ := hu
  have hbuild : ∃ r, buildSustain sdk u m = .ok r := by
    unfold buildSustain
    rw [if_neg (by omega)]
    obtain ⟨tx, htx⟩ := @finalize_of_signs Hash sdk m hm
      ⟨[⟨txid, u.txPos, if m.unlocker.isSome then [] else opTrueScript⟩],
        [⟨if u.value > m.sustainFee then u.value - m.sustainFee else 0, m.lockScript⟩]⟩
      ⟨u.value, m.lockScript⟩
    simp only [newInput, htxid, bind, Except.bind, htx]
    exact ⟨_, rfl⟩
  obtain ⟨⟨tx, next⟩, htx⟩ := hbuild
  exact ⟨⟨tx.txID, some tx.ef, [u], [next], some .l2Done, 0⟩, by rw [sustainPending, htx]; rfl⟩

end Build

/-! ## Sizes and fees of the script -/

/-- `m` is a tagged-drop mode of the instance, whatever its fee. -/
def Mode.TaggedDrop (m : Mode Hash) (instanceID : List Char) : Prop :=
  m.unlocker = none ∧ taggedDropLockScript instanceID = .ok m.lockScript

instance (m : Mode Hash) (instanceID : List Char) : Decidable (m.TaggedDrop instanceID) :=
  inferInstanceAs (Decidable (_ ∧ _))

/-- How many hops a chain makes from `value` on. -/
def Mode.hopsLeft (m : Mode Hash) (value : ℕ) : ℕ := (value + m.sustainFee - 1) / m.sustainFee

/-- A hop takes one hop off a chain. -/
theorem Mode.hopsLeft_sub (m : Mode Hash) {value : ℕ} (h : 0 < value) :
    m.hopsLeft value = m.hopsLeft (value - m.sustainFee) + 1 := by
  have hf := m.sustainFee.pos
  unfold Mode.hopsLeft
  by_cases hle : value ≤ m.sustainFee
  · rw [Nat.sub_eq_zero_of_le hle, Nat.zero_add, Nat.div_eq_of_lt (Nat.sub_lt hf Nat.one_pos)]
    apply Nat.div_eq_of_lt_le <;> omega
  · have heq : value + m.sustainFee - 1 = value - m.sustainFee + m.sustainFee - 1 + m.sustainFee := by
      omega
    rw [heq, Nat.add_div_right _ hf]

@[simp] theorem Mode.hopsLeft_zero (m : Mode Hash) : m.hopsLeft 0 = 0 := by
  have hf := m.sustainFee.pos
  rw [Mode.hopsLeft, Nat.zero_add]
  exact Nat.div_eq_of_lt (Nat.sub_lt hf Nat.one_pos)

namespace Funding

theorem estimateTaggedDropFanoutBytes_eq (n : ℕ) :
    estimateTaggedDropFanoutBytes n = 51 + TxGen.varIntSize n + n * 17 := by
  have hv : Funding.varIntSize n = TxGen.varIntSize n := rfl
  simp only [estimateTaggedDropFanoutBytes, hv, lockScriptTagBytes,
    show Funding.varIntSize 1 = 1 from rfl, show Funding.varIntSize 8 = 1 from rfl]
  omega

theorem varIntSize_mono {a b : ℕ} (h : a ≤ b) : TxGen.varIntSize a ≤ TxGen.varIntSize b := by
  unfold TxGen.varIntSize
  split_ifs <;> omega

theorem estimateTaggedDropFanoutBytes_mono {a b : ℕ} (h : a ≤ b) :
    estimateTaggedDropFanoutBytes a ≤ estimateTaggedDropFanoutBytes b := by
  have := varIntSize_mono h
  rw [estimateTaggedDropFanoutBytes_eq, estimateTaggedDropFanoutBytes_eq]
  omega

section TaggedDrop

variable {m : Mode Hash} {instanceID : List Char} {n : ℕ}

/-- **The engine and the script agree on the size of a fanout.** -/
theorem fanoutRawSize_taggedDrop (hm : m.TaggedDrop instanceID) (hn : n ≤ maxTxBytes) :
    m.fanoutRawSize n = estimateTaggedDropFanoutBytes n := by
  have hin : m.inputSize = 42 := by
    unfold Mode.inputSize
    rw [hm.1]
    rfl
  rw [m.fanoutRawSize_eq hn, length_taggedDropLockScript hm.2, hin, estimateTaggedDropFanoutBytes_eq]

/-- A fanout the script finds small enough is within the budget the script computes. -/
theorem budget_taggedDrop (hm : m.TaggedDrop instanceID) {value out : ℕ} (hpos : 0 < n)
    (hsize : estimateTaggedDropFanoutBytes n ≤ maxTxBytes)
    (hval : n * out + estimateTaggedDropFanoutFee n ≤ value) (hout : 0 < out) :
    Budget m n value out := by
  have hn : n ≤ maxTxBytes := by
    rw [estimateTaggedDropFanoutBytes_eq] at hsize
    omega
  have hraw := fanoutRawSize_taggedDrop hm hn
  refine ⟨hpos, hn, by rw [hraw]; exact hsize, ?_, hout⟩
  rw [hraw, fanoutFee_eq hsize]
  exact hval

end TaggedDrop

/-! ## Rounding -/

theorem le_mul_divCeil (n : ℕ) {d : ℕ} (hd : 0 < d) : n ≤ d * divCeil n d := by
  have h := Nat.div_add_mod (n + d - 1) d
  have hlt := Nat.mod_lt (n + d - 1) hd
  unfold divCeil
  omega

theorem divCeil_pos {n d : ℕ} (hn : 0 < n) (hd : 0 < d) : 0 < divCeil n d := by
  by_contra h0
  have := le_mul_divCeil n hd
  rw [Nat.eq_zero_of_not_pos h0] at this
  omega

theorem divCeil_le {n d : ℕ} (hn : 0 < n) (hd : 0 < d) : divCeil n d ≤ n := by
  unfold divCeil
  have hmul : n + d - 1 ≤ d * n := by
    obtain ⟨a, rfl⟩ := Nat.exists_eq_add_of_lt hn
    obtain ⟨b, rfl⟩ := Nat.exists_eq_add_of_lt hd
    ring_nf
    omega
  calc (n + d - 1) / d ≤ d * n / d := Nat.div_le_div_right hmul
    _ = n := Nat.mul_div_cancel_left n hd

/-- The two programs split the chains alike. -/
theorem ceilDiv_eq_divCeil {n d : ℕ} (hn : 0 < n) (hd : 0 < d) (h : n + d ≤ 2 ^ 63) :
    ceilDiv n d = divCeil n d := by
  unfold ceilDiv divCeil
  rw [if_neg (by omega)]
  have hi : i64 ((n : ℤ) + d - 1) = ((n + d - 1 : ℕ) : ℤ) := by
    unfold i64
    rw [Int.bmod_eq_of_le (by omega) (by omega)]
    omega
  rw [hi]
  rfl

/-- A part of a split into `divCeil n d` parts is at most `d`. -/
theorem splitSize_le {n d : ℕ} (hn : 0 < n) (hd : 0 < d) (i : ℕ) :
    splitSize n (divCeil n d) i ≤ d := by
  have hle := le_mul_divCeil n hd
  have hk := divCeil_pos hn hd
  generalize divCeil n d = k at hle hk
  have hdiv := Nat.div_add_mod n k
  have hq : n / k ≤ d := Nat.div_le_of_le_mul (by rw [Nat.mul_comm]; exact hle)
  unfold splitSize
  split_ifs with hi
  · -- there is a remainder, so the quotient is not the bound
    have hne : n / k ≠ d := by
      intro h0
      rw [h0, Nat.mul_comm] at hdiv
      omega
    omega
  · omega

theorem maxOver_spec (f : ℕ → ℕ) {n i : ℕ} (hi : i < n) : f i ≤ maxOver n f := by
  have hfold : ∀ (l : List ℕ) (a : ℕ),
      a ≤ l.foldl (fun max i => if f i > max then f i else max) a ∧
        ∀ j ∈ l, f j ≤ l.foldl (fun max i => if f i > max then f i else max) a := by
    intro l
    induction l with
    | nil => simp
    | cons j l ih =>
      intro a
      obtain ⟨h1, h2⟩ := ih (if f j > a then f j else a)
      have hstep : a ≤ (if f j > a then f j else a) ∧ f j ≤ (if f j > a then f j else a) := by
        split_ifs <;> omega
      refine ⟨hstep.1.trans h1, fun k hk => ?_⟩
      rcases List.mem_cons.1 hk with rfl | hk
      · exact hstep.2.trans h1
      · exact h2 k hk
  exact (hfold (List.range n) 0).2 i (List.mem_range.2 hi)

/-! ## The largest fanout -/

/-- The binary search returns its lower end or a size that fits. -/
theorem bisect_spec (maxBytes lo hi : ℕ) :
    lo ≤ bisect maxBytes lo hi ∧ (bisect maxBytes lo hi = lo ∨
      estimateTaggedDropFanoutBytes (bisect maxBytes lo hi) ≤ maxBytes) := by
  fun_induction bisect maxBytes lo hi with
  | case1 lo hi hlt mid hfit ih =>
    have hmid : lo ≤ mid := by
      show lo ≤ divCeil (lo + hi) 2
      unfold divCeil
      omega
    refine ⟨hmid.trans ih.1, Or.inr ?_⟩
    rcases ih.2 with h | h
    · rw [h]
      exact hfit
    · exact h
  | case2 lo hi hlt mid hfit ih => exact ih
  | case3 lo hi hlt => exact ⟨le_refl _, Or.inl rfl⟩

/-- **The cap on the outputs**: one output, or a number whose fanout fits. -/
theorem maxTaggedDropFanoutOutputs_spec (maxBytes : ℕ) :
    0 < maxTaggedDropFanoutOutputs maxBytes ∧ (maxTaggedDropFanoutOutputs maxBytes = 1 ∨
      estimateTaggedDropFanoutBytes (maxTaggedDropFanoutOutputs maxBytes) ≤ maxBytes) :=
  bisect_spec maxBytes 1 _

theorem chooseFanoutSize_spec {ceilSqrt : ℕ → ℕ+} {numChains cap maxBytes : ℕ}
    {override : Option ℕ+} {fanout : ℕ × FanoutSizeSource} (hcap : 0 < cap)
    (h : chooseFanoutSize ceilSqrt numChains override cap maxBytes = .ok fanout) :
    0 < fanout.1 ∧ fanout.1 ≤ cap := by
  unfold chooseFanoutSize at h
  dsimp only at h
  by_cases hbig : ((override.getD (ceilSqrt numChains) : ℕ+) : ℕ) > cap
  · rw [if_pos hbig] at h
    cases override with
    | some size => cases h
    | none =>
      cases h
      exact ⟨hcap, le_refl _⟩
  rw [if_neg hbig] at h
  by_cases hl1 : divCeil numChains (override.getD (ceilSqrt numChains)) > cap
  · rw [if_pos hl1] at h
    cases h
  · rw [if_neg hl1] at h
    cases h
    exact ⟨PNat.pos _, Nat.le_of_not_lt hbig⟩

/-! ## The plan -/

/-- The plan covers what an engine in mode `m` spends on it. -/
structure FundingPlan.Sufficient (plan : FundingPlan) (m : Mode Hash) : Prop where
  numChains_pos : 0 < plan.numChains
  l1Count : ceilDiv plan.numChains plan.maxFanoutSize = plan.l1FanoutSize
  l1_le : plan.l1FanoutSize ≤ plan.numChains
  l1 : Budget m plan.l1FanoutSize plan.initialSatoshis plan.maxL1OutputValue
  l2 : ∀ i < plan.l1FanoutSize, Budget m (splitSize plan.numChains plan.l1FanoutSize i)
    plan.maxL1OutputValue plan.leafValue
  hops : ∀ value, plan.leafValue ≤ value → plan.txsPerChain ≤ m.hopsLeft value
  total : plan.tps * plan.durationSeconds ≤ plan.numChains * plan.txsPerChain

/-- What `buildFundingPlan` has checked and computed when it returns a plan. -/
structure FundingPlan.Computed (plan : FundingPlan) (maxBytes : ℕ) : Prop where
  numChains_pos : 0 < plan.numChains
  numChains_le : plan.numChains ≤ maxSafeInteger
  fanoutSize_pos : 0 < plan.maxFanoutSize
  fanoutSize_le : plan.maxFanoutSize ≤ maxTaggedDropFanoutOutputs maxBytes
  l1FanoutSize : plan.l1FanoutSize = divCeil plan.numChains plan.maxFanoutSize
  l1FanoutTxBytes : estimateTaggedDropFanoutBytes plan.l1FanoutSize ≤ maxBytes
  maxL1OutputValue : plan.maxL1OutputValue =
    maxRequiredL1OutputValue plan.numChains plan.l1FanoutSize plan.leafValue
  initialSatoshis : plan.initialSatoshis =
    plan.l1FanoutSize * plan.maxL1OutputValue + estimateTaggedDropFanoutFee plan.l1FanoutSize
  leafValue : plan.leafValue = plan.txsPerChain * plan.sustainFee
  leafValue_pos : 0 < plan.leafValue
  txsPerChain : plan.txsPerChain = divCeil (plan.tps * plan.durationSeconds) plan.numChains

theorem buildFundingPlan_computed {ceilSqrt : ℕ → ℕ+} {input : Input} {plan : FundingPlan}
    (h : buildFundingPlan ceilSqrt input = .ok plan) :
    plan.Computed input.maxBootstrapTxBytes := by
  unfold buildFundingPlan at h
  dsimp only at h
  have hpos : 0 < (input.tps : ℕ) * input.utxoIdleSeconds :=
    Nat.mul_pos input.tps.pos input.utxoIdleSeconds.pos
  have htxs : 0 < (input.tps : ℕ) * input.durationSeconds :=
    Nat.mul_pos input.tps.pos input.durationSeconds.pos
  by_cases hrange : ¬(input.tps : ℕ) * input.utxoIdleSeconds ≤ maxSafeInteger ∨
      (input.tps : ℕ) * input.utxoIdleSeconds ≤ 0
  · rw [if_pos hrange] at h
    cases h
  rw [if_neg hrange] at h
  have hsafe : (input.tps : ℕ) * input.utxoIdleSeconds ≤ maxSafeInteger := by omega
  obtain ⟨-, -, h⟩ := bind_ok h
  obtain ⟨fanout, hfan, h⟩ := bind_ok h
  obtain ⟨⟨⟩, hval, h⟩ := bind_ok h
  cases h
  have hcap := (maxTaggedDropFanoutOutputs_spec input.maxBootstrapTxBytes).1
  obtain ⟨hf0, hf1⟩ := chooseFanoutSize_spec hcap hfan
  have hbytes : estimateTaggedDropFanoutBytes
      (divCeil ((input.tps : ℕ) * input.utxoIdleSeconds) fanout.1) ≤ input.maxBootstrapTxBytes := by
    unfold validateFanoutTxSize at hval
    dsimp only at hval
    split_ifs at hval with hb
    exact Nat.le_of_not_lt hb
  exact ⟨hpos, hsafe, hf0, hf1, rfl, hbytes, rfl, rfl, rfl,
    Nat.mul_pos (divCeil_pos htxs hpos) input.sustainFee.pos, rfl⟩

/-- **A plan is sufficient**, when its transactions may be as large as the engine's. -/
theorem FundingPlan.Computed.sufficient {plan : FundingPlan} {maxBytes : ℕ}
    (h : plan.Computed maxBytes) (hmax : maxBytes ≤ maxTxBytes) {m : Mode Hash}
    {instanceID : List Char} (hm : m.TaggedDrop instanceID)
    (hfee : (m.sustainFee : ℕ) = plan.sustainFee) : plan.Sufficient m := by
  have hl1 := h.l1FanoutSize
  have hl1pos : 0 < plan.l1FanoutSize := by
    rw [hl1]
    exact divCeil_pos h.numChains_pos h.fanoutSize_pos
  have hl1le : plan.l1FanoutSize ≤ plan.numChains := by
    rw [hl1]
    exact divCeil_le h.numChains_pos h.fanoutSize_pos
  -- an L2 fanout has at most as many outputs as the fanout size, which fits
  have hsplit : ∀ i, estimateTaggedDropFanoutBytes
      (splitSize plan.numChains plan.l1FanoutSize i) ≤ maxBytes := by
    intro i
    have hle : splitSize plan.numChains plan.l1FanoutSize i ≤ plan.maxFanoutSize := by
      rw [hl1]
      exact splitSize_le h.numChains_pos h.fanoutSize_pos i
    rcases (maxTaggedDropFanoutOutputs_spec maxBytes).2 with hone | hfit
    · have hle' : splitSize plan.numChains plan.l1FanoutSize i ≤ plan.l1FanoutSize := by
        have := h.fanoutSize_le
        omega
      exact (estimateTaggedDropFanoutBytes_mono hle').trans h.l1FanoutTxBytes
    · exact (estimateTaggedDropFanoutBytes_mono (hle.trans h.fanoutSize_le)).trans hfit
  have hneed : ∀ i < plan.l1FanoutSize, splitSize plan.numChains plan.l1FanoutSize i *
      plan.leafValue + estimateTaggedDropFanoutFee
        (splitSize plan.numChains plan.l1FanoutSize i) ≤ plan.maxL1OutputValue := by
    intro i hi
    rw [h.maxL1OutputValue]
    exact maxOver_spec (fun i => splitSize plan.numChains plan.l1FanoutSize i * plan.leafValue +
      estimateTaggedDropFanoutFee (splitSize plan.numChains plan.l1FanoutSize i)) hi
  have hsize0 : ∀ i, 0 < splitSize plan.numChains plan.l1FanoutSize i :=
    splitSize_pos hl1pos hl1le
  have hout : 0 < plan.maxL1OutputValue := by
    have h0 := hneed 0 hl1pos
    have hmul := Nat.mul_pos (hsize0 0) h.leafValue_pos
    omega
  refine ⟨h.numChains_pos, ?_, hl1le, ?_, ?_, ?_, ?_⟩
  · rw [hl1]
    apply ceilDiv_eq_divCeil h.numChains_pos h.fanoutSize_pos
    have hN := h.numChains_le
    have hF : plan.maxFanoutSize ≤ maxBytes + 1 := by
      have hcap := h.fanoutSize_le
      rcases (maxTaggedDropFanoutOutputs_spec maxBytes).2 with hone | hfit
      · omega
      · rw [estimateTaggedDropFanoutBytes_eq] at hfit
        omega
    rw [maxSafeInteger] at hN
    rw [maxTxBytes] at hmax
    omega
  · exact budget_taggedDrop hm hl1pos (h.l1FanoutTxBytes.trans hmax) (by rw [h.initialSatoshis]) hout
  · intro i hi
    exact budget_taggedDrop hm (hsize0 i) ((hsplit i).trans hmax) (hneed i hi) h.leafValue_pos
  · intro value hv
    have hfpos := m.sustainFee.pos
    rw [Mode.hopsLeft, Nat.le_div_iff_mul_le hfpos]
    rw [h.leafValue, ← hfee] at hv
    omega
  · rw [h.txsPerChain]
    exact le_mul_divCeil _ h.numChains_pos

end Funding

end TxGen
