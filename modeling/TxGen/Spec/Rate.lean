import TxGen.Lib.Machine
import TxGen.Spec.Status

/-!
# Setting the rate while chains wait

`SetTPS` with `notify` and the waits of `chain.go`, at the granularity of their
atomic steps: each load and store of the rate, each fetch, replacement and close of
the wake channel, and each section under a lock is a step of its own. Any number of
calls and chains take their steps in any order.

A wake channel is a number, counted up as channels are made. How long a chain sleeps
is left open: `chainInterval` works in floating point and the jitter is random.
-/

namespace TxGen

open Lib

/-- Where a call of `SetTPS` stands.

* `store`: before the store of the rate
* `gauge`: before the write of the gauge
* `state`: before the update of the state record
* `swap`: before `notify.Broadcast` replaces the channel
* `close old`: before it closes the old one -/
inductive CallPc
  | store
  | gauge
  | state
  | swap
  | close (old : ℕ)
  | returned
  deriving DecidableEq, Repr

/-- A call of `SetTPS`. -/
structure Call where
  tps : ℤ
  pc : CallPc
  deriving DecidableEq, Repr

/-- Where a chain stands in `waitInterval`.

* `fetch`: `waitActive` before `resume.C()`
* `load wake`: it has the channel and has not read the rate
* `paused wake tps`: its `select`, after it read a rate that is not positive
* `interval wake tps`: it has returned a positive rate
* `sleep wake tps`: the `select` of `waitDuration`
* `elapsed`: `waitInterval` has returned true
* `canceled`: it has returned false -/
inductive WaitPc
  | fetch
  | load (wake : ℕ)
  | paused (wake : ℕ) (tps : ℤ)
  | interval (wake : ℕ) (tps : ℤ)
  | sleep (wake : ℕ) (tps : ℤ)
  | elapsed
  | canceled
  deriving DecidableEq, Repr

/-- A step of a waiting chain: the next one outside a `select`, the computation of a
duration, one of the branches of a `select`, or another call of `waitInterval`. -/
inductive WaitEvent
  | next
  | duration (d : ℤ)
  | wake
  | timer
  | done
  | again
  deriving DecidableEq, Repr

/-- The rate, the channel of `notify` with the closes so far, the calls and the
chains. -/
structure Rate where
  control : Control
  ch : ℕ
  closed : List ℕ
  calls : List Call
  chains : List WaitPc
  ctxDone : Bool

/-- A call begins or takes its next step, a chain begins to wait or takes a step, or
the context is canceled. -/
inductive RateEvent
  | setTPS (tps : ℤ)
  | call (i : ℕ)
  | chain
  | wait (j : ℕ) (e : WaitEvent)
  | cancel
  deriving DecidableEq, Repr

/-- The channel a blocked chain waits on, with the rate it has read. -/
def WaitPc.blocked : WaitPc → Option (ℕ × ℤ)
  | .paused wake tps | .sleep wake tps => some (wake, tps)
  | _ => none

namespace Rate

variable (r : Rate)

/-- The next step of call `i`. -/
def callStep (i : ℕ) : Rate :=
  match r.calls[i]? with
  | none => r
  | some c =>
    match c.pc with
    | .store => { r with
        control := { r.control with tps := c.tps }
        calls := r.calls.set i { c with pc := .gauge } }
    | .gauge => { r with
        control := { r.control with tpsTarget := c.tps }
        calls := r.calls.set i { c with pc := .state } }
    | .state => { r with
        control := { r.control with state := r.control.state.setTPS c.tps }
        calls := r.calls.set i { c with pc := .swap } }
    | .swap => { r with
        ch := r.ch + 1
        calls := r.calls.set i { c with pc := .close r.ch } }
    | .close old => { r with
        closed := r.closed ++ [old]
        calls := r.calls.set i { c with pc := .returned } }
    | .returned => r

/-- Where a chain at `pc` stands after a step. A branch of a `select` is taken only
when it is ready. -/
def waitNext (pc : WaitPc) (e : WaitEvent) : WaitPc :=
  match e, pc with
  | .next, .fetch => .load r.ch
  | .next, .load wake =>
    if 0 < r.control.tps then .interval wake r.control.tps else .paused wake r.control.tps
  | .duration d, .interval wake tps => if d ≤ 0 then .elapsed else .sleep wake tps
  | .wake, .paused wake tps => if wake ∈ r.closed then .fetch else .paused wake tps
  | .wake, .sleep wake tps => if wake ∈ r.closed then .fetch else .sleep wake tps
  | .timer, .sleep _ _ => .elapsed
  | .done, .paused wake tps => if r.ctxDone then .canceled else .paused wake tps
  | .done, .sleep wake tps => if r.ctxDone then .canceled else .sleep wake tps
  | .again, .elapsed => .fetch
  | _, pc => pc

/-- A step of chain `j`. -/
def waitStep (j : ℕ) (e : WaitEvent) : Rate :=
  match r.chains[j]? with
  | none => r
  | some pc => { r with chains := r.chains.set j (r.waitNext pc e) }

/-- One event. -/
def step (r : Rate) : RateEvent → Rate
  | .setTPS tps => { r with calls := r.calls ++ [⟨tps, .store⟩] }
  | .call i => r.callStep i
  | .chain => { r with chains := r.chains ++ [.fetch] }
  | .wait j e => r.waitStep j e
  | .cancel => { r with ctxDone := true }

/-- Nobody calls and nobody waits. -/
def init (c : Control) : Rate := ⟨c, 0, [], [], [], false⟩

/-- The state after a list of events. -/
def run (r : Rate) (es : List RateEvent) : Rate := Lib.run step r es

end Rate

end TxGen
