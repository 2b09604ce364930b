import TxGen.Spec.Engine

/-!
# Delays before a retry

`internal/backoff`. A `time.Duration` is a 64-bit count of nanoseconds.

Every operation whose result may leave the 64 bits is written with `int`, which says
what becomes of it: `wrap` is what the machine does, and `checked` refuses a result that
does not fit. A function of this file computes with `wrap`; that none of its operations
wraps is that it ends with `checked` too.
-/

namespace TxGen.Backoff

/-- What can go wrong with an operation: its result does not fit, or it panics. -/
inductive Fault
  | overflow
  | panic
  deriving DecidableEq, Repr

/-- `math.MaxInt64`. -/
def maxInt64 : ℤ := 2 ^ 63 - 1

/-- The result of an operation, as the machine keeps it. -/
def wrap (x : ℤ) : Except Fault ℤ := .ok (i64 x)

/-- The result of an operation, when it fits. -/
def checked (x : ℤ) : Except Fault ℤ :=
  if -2 ^ 63 ≤ x ∧ x ≤ maxInt64 then .ok x else .error .overflow

/-- The random source, for one call: what `rand.Int64N` gives for a positive bound. -/
structure Rand where
  draw : ℤ → ℤ
  range : ∀ n, 0 < n → 0 ≤ draw n ∧ draw n < n

/-- `rand.Int64N`. -/
def Rand.int64N (rand : Rand) (n : ℤ) : Except Fault ℤ :=
  if n ≤ 0 then .error .panic else .ok (rand.draw n)

/-- The delay before the first retry. -/
def retryBase : ℤ := 100 * 10 ^ 6

/-- The largest delay of `Retry`, before the jitter. -/
def retryCap : ℤ := 5 * 10 ^ 9

/-- The loop of `exponential`, with the number of turns left. Its counter stays below
`attempt`. -/
def doubling (int : ℤ → Except Fault ℤ) (limit : ℤ) : ℕ → ℤ → Except Fault ℤ
  | 0, delay => .ok delay
  | n + 1, delay =>
    if delay ≥ limit.tdiv 2 then .ok limit
    else do
      let delay ← int (delay * 2)
      doubling int limit n delay

/-- `exponential`. -/
def exponential (int : ℤ → Except Fault ℤ) (base limit attempt : ℤ) : Except Fault ℤ :=
  let attempt := if attempt < 1 then 1 else attempt
  if base ≤ 0 ∨ base ≥ limit then .ok limit
  else doubling int limit (attempt - 1).toNat base

/-- `Jitter`. -/
def jitter (int : ℤ → Except Fault ℤ) (rand : Rand) (maxJitter : ℤ) : Except Fault ℤ :=
  if maxJitter ≤ 0 then .ok 0
  else do
    let maxJitter ← if maxJitter = maxInt64 then int (maxJitter - 1) else .ok maxJitter
    let n ← int (maxJitter + 1)
    rand.int64N n

/-- `Retry`. -/
def retry (int : ℤ → Except Fault ℤ) (rand : Rand) (attempt : ℤ) : Except Fault ℤ := do
  let delay ← exponential int retryBase retryCap attempt
  let more ← jitter int rand (delay.tdiv 2)
  int (delay + more)

/-- `Reconnect`. -/
def reconnect (int : ℤ → Except Fault ℤ) (rand : Rand) (minDelay maxDelay attempt : ℤ) :
    Except Fault ℤ := do
  let maxDelay := if maxDelay ≤ 0 then minDelay else maxDelay
  let delay ← exponential int minDelay maxDelay attempt
  if delay ≤ 0 then .ok minDelay
  else do
    let more ← jitter int rand (delay.tdiv 2)
    int (delay + more)

end TxGen.Backoff
