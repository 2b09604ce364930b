import Mathlib.Algebra.Order.Ring.Int

/-!
# The engine's state record

`internal/engine/state.go` and the methods of `Engine` that change it: the lifecycle,
the requested rate, the number of chains aimed at and the count of consecutive
broadcast failures. Each function here is what one of the methods does to the record
under the engine's lock. Times, error records, the chain tips of the SSE streams and
the counters that only `/status` shows are left out.
-/

namespace TxGen

/-- The engine's operating state. -/
inductive Lifecycle
  | starting
  | bootstrapping
  | paused
  | running
  | degraded
  | stopping
  | stopped
  | failed
  deriving DecidableEq, Repr

/-- `engine.State`. -/
structure State where
  lifecycle : Lifecycle
  requestedTPS : ℤ
  chainsTarget : ℤ
  consecutiveArcadeFailures : ℕ
  deriving DecidableEq, Repr

/-- The number of consecutive failures that moves the engine to `degraded`. -/
def degradedAfterFailures : ℕ := 5

namespace State

variable (s : State)

/-- The record of an engine that `New` creates. -/
def new (numChains : ℤ) : State := ⟨.starting, 0, numChains, 0⟩

/-- `bootstrap` begins. -/
def bootstrap (numChains : ℤ) : State :=
  { s with lifecycle := .bootstrapping, chainsTarget := numChains }

/-- `ConfigureBootstrap` has applied an update. -/
def configured (numChains : ℤ) : State := { s with chainsTarget := numChains }

/-- `Run` returns an error of `bootstrap`; after a cancellation it is a shutdown. -/
def bootstrapError (ctxDone : Bool) : State :=
  { s with lifecycle := if ctxDone then .stopped else .failed }

/-- `runChains` begins. -/
def runChains (tps numChains : ℤ) : State :=
  { s with lifecycle := if 0 < tps then .running else .paused, chainsTarget := numChains }

/-- `runChains` has seen the cancellation. -/
def stop : State := { s with lifecycle := .stopped }

/-- What `SetTPS` does under the lock. -/
def setTPS (tps : ℤ) : State :=
  { s with
    requestedTPS := tps
    lifecycle :=
      if 0 < tps ∧ s.lifecycle = .paused then .running
      else if tps ≤ 0 ∧ (s.lifecycle = .running ∨ s.lifecycle = .degraded) then .paused
      else s.lifecycle }

/-- `recordBroadcastOk`. -/
def recordBroadcastOk : State :=
  { s with
    consecutiveArcadeFailures := 0
    lifecycle := if s.lifecycle = .degraded then .running else s.lifecycle }

/-- `recordBroadcastFail`. -/
def recordBroadcastFail : State :=
  { s with
    consecutiveArcadeFailures := s.consecutiveArcadeFailures + 1
    lifecycle := if degradedAfterFailures ≤ s.consecutiveArcadeFailures + 1 then .degraded
      else s.lifecycle }

end State

/-- What `SetTPS` writes: the rate, which is atomic, the gauge `txgen_tps_target`, and
the state record. -/
structure Control where
  tps : ℤ
  tpsTarget : ℤ
  state : State
  deriving DecidableEq, Repr

/-- `SetTPS`, not interrupted, up to the waking of the chains. -/
def Control.setTPS (c : Control) (tps : ℤ) : Control := ⟨tps, tps, c.state.setTPS tps⟩

/-- The control of an engine that `New` creates. -/
def Control.new (numChains : ℤ) : Control := ⟨0, 0, State.new numChains⟩

/-- `setState`: a change of the state record only. -/
def Control.setState (c : Control) (f : State → State) : Control := { c with state := f c.state }

end TxGen
