import Mathlib.Data.PNat.Basic
import TxGen.Spec.Engine
import TxGen.Spec.Tag

/-!
# The funding script

`buildFundingPlan` of `scripts/initial-funding.ts`: from the target rate and duration
it derives the number of chains, the size of the two fanouts and the value of the
funding output. JavaScript numbers are taken as exact integers, and so is
`Math.ceil(Math.sqrt(n))`, of which only that it is positive is used.
-/

namespace TxGen.Funding

/-- `Number.MAX_SAFE_INTEGER`. -/
def maxSafeInteger : ℕ := 2 ^ 53 - 1

def satoshisPerKB : ℕ := 100

/-- What the plan is made for. The prompts (`askPositiveInt`, `askDurationSeconds`) and
the variables (`envInt`, `envOptionalInt`) are read again or refused unless positive. -/
structure Input where
  tps : ℕ+
  durationSeconds : ℕ+
  fanoutSizeOverride : Option ℕ+
  utxoIdleSeconds : ℕ+
  maxBootstrapTxBytes : ℕ+
  sustainFee : ℕ+

/-- Where the fanout size comes from. -/
inductive FanoutSizeSource
  | sqrt
  | env
  deriving DecidableEq, Repr

/-- `FundingPlan`. -/
structure FundingPlan where
  tps : ℕ
  durationSeconds : ℕ
  totalSustainTxs : ℕ
  txsPerChain : ℕ
  leafValue : ℕ
  initialSatoshis : ℕ
  l1FanoutFee : ℕ
  l1FanoutSize : ℕ
  l1FanoutTxBytes : ℕ
  maxL1OutputValue : ℕ
  maxFanoutSize : ℕ
  maxFanoutTxBytes : ℕ
  fanoutSizeSource : FanoutSizeSource
  numChains : ℕ
  utxoIdleSeconds : ℕ
  maxBootstrapTxBytes : ℕ
  sustainFee : ℕ
  deriving DecidableEq, Repr

/-- Why there is no plan, with the numbers the message prints.

* `numChainsRange`: `computed NUM_CHAINS is outside the safe integer range`
* `fanoutSize`: `FANOUT_SIZE=.. would exceed the .. transaction size ceiling`
* `l1Outputs`: `two-level bootstrap would require .. L1 outputs, above the per-tx cap`
* `fanoutTxBytes`: `L1 fanout would be .., above the .. cap`
* `unsafeSatoshis`: `initial output .. exceeds JavaScript safe integer range` -/
inductive PlanError
  | numChainsRange (numChains : ℕ)
  | fanoutSize (override maxBytes : ℕ)
  | l1Outputs (l1FanoutSize maxOutputs : ℕ)
  | fanoutTxBytes (bytes maxBytes : ℕ)
  | unsafeSatoshis (value : ℕ)
  deriving DecidableEq, Repr

/-! ## Sizes and fees -/

/-- `varIntSize` of the script. -/
def varIntSize (n : ℕ) : ℕ :=
  if n < 0xfd then 1 else if n ≤ 0xffff then 3 else if n ≤ 0xffffffff then 5 else 9

/-- `divCeil`, and `Math.ceil(numerator / denominator)`. -/
def divCeil (numerator denominator : ℕ) : ℕ := (numerator + denominator - 1) / denominator

def estimateTaggedDropFanoutBytes (fanoutSize : ℕ) : ℕ :=
  let inputSize := 32 + 4 + varIntSize 1 + 1 + 4
  let lockScriptLen := 1 + lockScriptTagBytes + 1
  let outputSize := 8 + varIntSize lockScriptLen + lockScriptLen
  4 + varIntSize 1 + inputSize + varIntSize fanoutSize + fanoutSize * outputSize + 4

def estimateTaggedDropFanoutFee (fanoutSize : ℕ) : ℕ :=
  divCeil (estimateTaggedDropFanoutBytes fanoutSize * satoshisPerKB) 1000

/-- The size of the L2 fanout of one L1 output. -/
def l2FanoutSizeForParent (numChains l1FanoutSize parentIndex : ℕ) : ℕ :=
  let base := numChains / l1FanoutSize
  let remainder := numChains % l1FanoutSize
  base + if parentIndex < remainder then 1 else 0

/-- The largest value a loop over `0 .. n - 1` finds, from 0 on. -/
def maxOver (n : ℕ) (f : ℕ → ℕ) : ℕ :=
  (List.range n).foldl (fun max i => if f i > max then f i else max) 0

def maxRequiredL1OutputValue (numChains l1FanoutSize leafValue : ℕ) : ℕ :=
  maxOver l1FanoutSize fun i =>
    let l2FanoutSize := l2FanoutSizeForParent numChains l1FanoutSize i
    l2FanoutSize * leafValue + estimateTaggedDropFanoutFee l2FanoutSize

def maxL2FanoutTxBytes (numChains l1FanoutSize : ℕ) : ℕ :=
  maxOver l1FanoutSize fun i =>
    estimateTaggedDropFanoutBytes (l2FanoutSizeForParent numChains l1FanoutSize i)

/-! ## The fanout size -/

/-- The first loop of `maxTaggedDropFanoutOutputs`: `hi` is doubled while it fits. -/
def doubleHi (maxBytes : ℕ) (hi : ℕ+) : ℕ+ :=
  if estimateTaggedDropFanoutBytes hi ≤ maxBytes ∧ 2 * (hi : ℕ) < maxSafeInteger then
    doubleHi maxBytes (hi * 2)
  else hi
termination_by maxSafeInteger - (hi : ℕ)
decreasing_by
  rw [PNat.mul_coe, show ((2 : ℕ+) : ℕ) = 2 from rfl]
  have := hi.pos
  omega

/-- The second loop: the largest size between `lo` and `hi` that fits. -/
def bisect (maxBytes lo hi : ℕ) : ℕ :=
  if lo < hi then
    let mid := divCeil (lo + hi) 2
    if estimateTaggedDropFanoutBytes mid ≤ maxBytes then bisect maxBytes mid hi
    else bisect maxBytes lo (mid - 1)
  else lo
termination_by hi - lo
decreasing_by all_goals (simp only [divCeil]; omega)

def maxTaggedDropFanoutOutputs (maxBytes : ℕ) : ℕ := bisect maxBytes 1 (doubleHi maxBytes 1)

def chooseFanoutSize (ceilSqrt : ℕ → ℕ+) (numChains : ℕ) (override : Option ℕ+)
    (maxOutputsPerBootstrapTx maxBootstrapTxBytes : ℕ) :
    Except PlanError (ℕ × FanoutSizeSource) :=
  let desired : ℕ := override.getD (ceilSqrt numChains)
  let source := if override.isNone then .sqrt else .env
  if desired > maxOutputsPerBootstrapTx then
    match override with
    | some size => .error (.fanoutSize size maxBootstrapTxBytes)
    | none => .ok (maxOutputsPerBootstrapTx, source)
  else
    let l1FanoutSize := divCeil numChains desired
    if l1FanoutSize > maxOutputsPerBootstrapTx then
      .error (.l1Outputs l1FanoutSize maxOutputsPerBootstrapTx)
    else .ok (desired, source)

def validateFanoutTxSize (fanoutSize maxBytes : ℕ) : Except PlanError Unit :=
  let bytes := estimateTaggedDropFanoutBytes fanoutSize
  if bytes > maxBytes then .error (.fanoutTxBytes bytes maxBytes) else .ok ()

/-! ## The plan -/

def buildFundingPlan (ceilSqrt : ℕ → ℕ+) (input : Input) : Except PlanError FundingPlan := do
  let numChains : ℕ := input.tps * input.utxoIdleSeconds
  if ¬numChains ≤ maxSafeInteger ∨ numChains ≤ 0 then
    throw (.numChainsRange numChains)
  let totalSustainTxs : ℕ := input.tps * input.durationSeconds
  let txsPerChain := divCeil totalSustainTxs numChains
  let leafValue := txsPerChain * input.sustainFee
  let maxOutputsPerBootstrapTx := maxTaggedDropFanoutOutputs input.maxBootstrapTxBytes
  let fanout ← chooseFanoutSize ceilSqrt numChains input.fanoutSizeOverride
    maxOutputsPerBootstrapTx input.maxBootstrapTxBytes
  let l1FanoutSize := divCeil numChains fanout.1
  validateFanoutTxSize l1FanoutSize input.maxBootstrapTxBytes
  let l1FanoutFee := estimateTaggedDropFanoutFee l1FanoutSize
  let maxL1OutputValue := maxRequiredL1OutputValue numChains l1FanoutSize leafValue
  return {
    tps := input.tps
    durationSeconds := input.durationSeconds
    totalSustainTxs
    txsPerChain
    leafValue
    initialSatoshis := l1FanoutSize * maxL1OutputValue + l1FanoutFee
    l1FanoutFee
    l1FanoutSize
    l1FanoutTxBytes := estimateTaggedDropFanoutBytes l1FanoutSize
    maxL1OutputValue
    maxFanoutSize := fanout.1
    maxFanoutTxBytes := maxL2FanoutTxBytes numChains l1FanoutSize
    fanoutSizeSource := fanout.2
    numChains
    utxoIdleSeconds := input.utxoIdleSeconds
    maxBootstrapTxBytes := input.maxBootstrapTxBytes
    sustainFee := input.sustainFee }

/-- `toSafeSatoshiNumber`: the value of the output the wallet is asked for. -/
def toSafeSatoshiNumber (value : ℕ) : Except PlanError ℕ :=
  if value > maxSafeInteger then .error (.unsafeSatoshis value) else .ok value

/-- The engine parameters of a plan. -/
def FundingPlan.config (plan : FundingPlan) : BootstrapConfig :=
  ⟨plan.numChains, plan.maxFanoutSize, plan.sustainFee⟩

/-- The engine part of `txGenConfigPayload`. -/
def FundingPlan.update (plan : FundingPlan) : BootstrapUpdate :=
  ⟨some plan.numChains, some plan.maxFanoutSize, some plan.sustainFee⟩

end TxGen.Funding
