import TxGen.Spec.Arcade
import TxGen.Spec.Live

/-!
# Readiness

`GET /readyz` of `internal/server`: the checks of `readiness`, with `Snapshot` of the engine
and `Reachable` of the Arcade client. A request looks at one thing after the other while the
engine goes on. `Snapshot` copies the state record under the engine's lock and counts the
chains after that, so it is taken from two states of the engine.
-/

namespace TxGen

namespace Arcade

/-- The errors of `Reachable`.

* `build`: `build health request: ..`
* `transport`: `arcade GET /health: ..`
* `unhealthy`: `arcade is unhealthy: HTTP ..` -/
inductive HealthError
  | build (cause : Bytes)
  | transport (cause : Bytes)
  | unhealthy (status : ℕ)
  deriving DecidableEq, Repr

/-- `Reachable`, with the answer to its request. -/
def Client.reachable (parseError : Bytes → Option Bytes) (c : Client) (a : Answer) :
    Option HealthError :=
  match parseError (c.baseURL ++ ascii "/health") with
  | some cause => some (.build cause)
  | none =>
    match a with
    | .failed cause => some (.transport cause)
    | .response status _ _ => if status ≥ 500 then some (.unhealthy status) else none

end Arcade

/-- What `readiness` uses of a snapshot. -/
structure Snapshot where
  lifecycle : Lifecycle
  bootstrapStage : Stage
  chainsActive : ℕ
  consecutiveArcadeFailures : ℕ
  deriving DecidableEq, Repr

variable {Hash : Type}

/-- A chain that has not returned. -/
def Task.active (t : Task Hash) : Bool := t.kind = .sustain && !t.ended

/-- `Snapshot`: the record of one state, and the number of chains of a later one. -/
def snapshot (copied counted : Live Hash) : Option Snapshot := do
  let q ← copied.world.proc
  let q' ← counted.world.proc
  return {
    lifecycle := copied.control.state.lifecycle
    bootstrapStage := q.stage
    chainsActive := q'.tasks.countP Task.active
    consecutiveArcadeFailures := copied.control.state.consecutiveArcadeFailures }

/-- The check `engine`. -/
inductive EngineCheck
  | stopped
  | starting
  | running
  deriving DecidableEq, Repr

/-- The check `arcade`. -/
inductive ArcadeCheck
  | unavailable
  | failed (e : Arcade.HealthError)
  | reachable
  deriving DecidableEq, Repr

/-- The answer of `/readyz`. -/
structure Readiness where
  ready : Bool
  engine : EngineCheck
  snapshot : Snapshot
  arcade : ArcadeCheck
  deriving DecidableEq, Repr

/-- The check of the engine's goroutine, from what `engineStoppedUnexpected` and
`engineRunning` were when they were looked at. -/
def engineCheck (stoppedUnexpected running : Bool) : EngineCheck :=
  if stoppedUnexpected then .stopped else if !running then .starting else .running

/-- The check of Arcade; there may be no client. -/
def arcadeCheck (parseError : Bytes → Option Bytes) (a : Arcade.Answer) :
    Option Arcade.Client → ArcadeCheck
  | none => .unavailable
  | some c =>
    match c.reachable parseError a with
    | some e => .failed e
    | none => .reachable

/-- The snapshot lets the engine be ready. -/
def Snapshot.healthy (s : Snapshot) : Bool :=
  !(s.lifecycle = .failed || s.lifecycle = .stopping || s.lifecycle = .stopped ||
    s.bootstrapStage ≠ .l2Done || s.chainsActive ≤ 0 || s.consecutiveArcadeFailures > 0)

/-- `readiness`. -/
def readiness (engine : EngineCheck) (snapshot : Snapshot) (arcade : ArcadeCheck) : Readiness where
  ready := engine = .running && snapshot.healthy && arcade = .reachable
  engine
  snapshot
  arcade

/-- `handleReadyz`: the status of the answer. -/
def Readiness.status (r : Readiness) : ℕ := if r.ready then 200 else 503

end TxGen
