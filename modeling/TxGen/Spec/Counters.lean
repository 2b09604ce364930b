import Mathlib.Logic.Function.Basic
import TxGen.Spec.Arcade

/-!
# Counting broadcasts

What `Client.Broadcast` of `internal/arcade` counts: every turn of its loop observes a
latency and increments `txgen_broadcast_total` under the result of the turn. The alerts on
broadcasts are rules over these counters.
-/

namespace TxGen.Arcade

/-- The values of the label `result`. -/
inductive Outcome
  | ok
  | retry
  | error
  deriving DecidableEq, Repr

/-- `txgen_broadcast_total` by its label `result`, and the number of latencies that
`txgen_broadcast_latency_seconds` has seen, both for the kind `tx`. -/
structure Counters where
  total : Outcome → ℕ
  latencies : ℕ

/-- The counters of a new process. -/
def Counters.start : Counters := ⟨fun _ => 0, 0⟩

/-- `ObserveBroadcastLatency` and `IncBroadcast`. -/
def Counters.turn (n : Counters) (r : Outcome) : Counters :=
  ⟨Function.update n.total r (n.total r + 1), n.latencies + 1⟩

/-- The result under which a turn of the loop is counted after `post`. -/
def Client.outcome (c : Client) (k : Call) (attempt : ℤ) :
    Except BroadcastError (ℕ × Bytes) → Outcome
  | .ok (status, _) =>
    if status = 202 then .ok
    else if ¬(status = 429 ∨ status ≥ 500) ∨ attempt = c.retryMax then .error
    else .retry
  | .error _ => if k.done ∨ attempt = c.retryMax then .error else .retry

/-- What an action counts, when it ends a turn of the loop. -/
def Client.counted (parseError : Bytes → Option Bytes) (c : Client) (k : Call) :
    Action → Option Outcome
  | .send =>
    match k.point with
    | .post attempt =>
      (parseError (c.baseURL ++ ascii "/tx")).map fun cause =>
        c.outcome k attempt (.error (.build cause))
    | _ => none
  | .answer a =>
    match k.point with
    | .inFlight attempt => some (c.outcome k attempt a.read)
    | _ => none
  | _ => none

/-- The counters after an event. -/
def Client.count (parseError : Bytes → Option Bytes) (c : Client) (s : State) (n : Counters) :
    Event → Counters
  | .call => n
  | .act i a => ((s.calls[i]?.bind fun k => c.counted parseError k a).map n.turn).getD n

/-- The calls and the counters after an event. -/
def Client.countedStep (parseError : Bytes → Option Bytes) (c : Client) (x : State × Counters)
    (e : Event) : State × Counters :=
  (c.step parseError x.1 e, c.count parseError x.1 x.2 e)

end TxGen.Arcade
