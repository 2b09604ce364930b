import TxGen.Lib.Machine
import Mathlib.Algebra.Order.Ring.Int

/-!
# The gauge of active chains

`internal/engine/chain.go` counts the running chains in an atomic counter and shows the
count in the gauge `txgen_chains_active`. `runChains` adds one for every chain before it
starts it, and the chain's deferred function takes one off when the chain has returned,
for whatever reason. Both write what the update returned to the gauge in a step of their
own.
-/

namespace TxGen

/-- Where the goroutine of a chain stands: running, between the update and the write of
its deferred function, or ended. -/
inductive ChainPc
  | running
  | leaving (n : ℤ)
  | ended
  deriving DecidableEq, Repr

/-- The counter, the gauge, the value `runChains` has still to write, and the chains. -/
structure Gauge where
  chainsActive : ℤ
  gauge : ℤ
  starting : Option ℤ
  chains : List ChainPc
  deriving DecidableEq, Repr

/-- A step of `runChains` or of the deferred function of chain `i`: `chainsActive.Add`,
or `SetChainsActive`, after which `runChains` starts the chain. -/
inductive GaugeEvent
  | add
  | start
  | leave (i : ℕ)
  | report (i : ℕ)
  deriving DecidableEq, Repr

namespace Gauge

/-- Before the first chain. -/
def init : Gauge := ⟨0, 0, none, []⟩

/-- One event. -/
def step (g : Gauge) : GaugeEvent → Gauge
  | .add =>
    match g.starting with
    | some _ => g
    | none =>
      let n := g.chainsActive + 1
      { g with chainsActive := n, starting := some n }
  | .start =>
    match g.starting with
    | none => g
    | some n => { g with gauge := n, starting := none, chains := g.chains ++ [.running] }
  | .leave i =>
    match g.chains[i]? with
    | some .running =>
      let n := g.chainsActive - 1
      { g with chainsActive := n, chains := g.chains.set i (.leaving n) }
    | _ => g
  | .report i =>
    match g.chains[i]? with
    | some (.leaving n) => { g with gauge := n, chains := g.chains.set i .ended }
    | _ => g

/-- The state after a list of events. -/
def run (g : Gauge) (es : List GaugeEvent) : Gauge := Lib.run step g es

/-- No start or termination is in progress. -/
def quiet (g : Gauge) : Bool :=
  g.starting.isNone && g.chains.all fun c => c = .running || c = .ended

/-- The number of chains that run or are about to. -/
def running (g : Gauge) : ℕ := g.starting.toList.length + g.chains.count .running

end Gauge

end TxGen
