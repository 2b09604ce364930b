import TxGen.Lib.Machine
import Mathlib.Algebra.Order.Ring.Int

/-!
# Running the program and shutting it down

`Run` of `internal/app` from the moment its goroutines are launched, with `shutdown`,
`waitTimeout` and `closeStore`, and of `internal/server` what they use: `ListenAndServe`,
`Shutdown`, `MarkEngineRunning` and `MarkEngineStopped`. The goroutines are `Run` itself,
the engine's, the server's, one for each stream, and the one `waitTimeout` starts. Any of
them may be delayed at any point. Times are in nanoseconds.

When the engine returns, how long streams, requests and transactions of the store take,
whether listening succeeds and when the process is signaled comes from outside. Where a
`select` has two ways to go on, the event says which one is taken.

Of `net/http` the model has what its documentation says: `Shutdown` closes the listeners
at once and then waits for requests in progress, and from then on serving returns
`ErrServerClosed`. So it has of `bbolt`: `Close` waits for the transactions in progress,
however long they take.

The engine's goroutine waits for all goroutines it starts, so that the store is used only
while `eng.Run` runs; should `eng.Run` panic, the chains it has started go on alone.

`since`, `held`, `missed`, `timedOut`, `listenFailed`, `lateUses` and `lateRequests` record
what has happened; nothing depends on them.
-/

namespace TxGen.Shutdown

def serverShutdownTimeout : ℤ := 5 * 10 ^ 9

def drainTimeout : ℤ := 30 * 10 ^ 9

/-- Where `Run` stands. An error is returned when there is one in `serveErr`.

* `serving`: at `<-ctx.Done()`
* `stopping`: in `shutdown`, before `srv.Shutdown`
* `closing begun`: in `Shutdown` of the HTTP server
* `draining begun`: in the `select` of `waitTimeout`
* `result`: before the `select` on `serveErr`
* `deferred err`: in `closeStore`
* `returned err`: at its end -/
inductive Main
  | serving
  | stopping
  | closing (begun : ℤ)
  | draining (begun : ℤ)
  | result
  | deferred (err : Bool)
  | returned (err : Bool)
  deriving DecidableEq, Repr

/-- `Run` is not late when it is there at the time `now`: no time passes where it can go
on at once, and a wait ends no later than its timeout. There is none for `Close`, which
goes on when there are no transactions. -/
def Main.InTime (canceled : Bool) (transactions : ℕ) (now : ℤ) : Main → Prop
  | .serving => canceled = false
  | .closing begun => now ≤ begun + serverShutdownTimeout
  | .draining begun => now ≤ begun + drainTimeout
  | .stopping | .result => False
  | .deferred _ => 0 < transactions
  | .returned _ => True

instance Main.InTime.decidable (canceled : Bool) (transactions : ℕ) (now : ℤ) :
    ∀ main : Main, Decidable (main.InTime canceled transactions now)
  | .serving => inferInstanceAs (Decidable (canceled = false))
  | .closing begun => inferInstanceAs (Decidable (now ≤ begun + serverShutdownTimeout))
  | .draining begun => inferInstanceAs (Decidable (now ≤ begun + drainTimeout))
  | .stopping | .result => isFalse id
  | .deferred _ => inferInstanceAs (Decidable (0 < transactions))
  | .returned _ => isTrue trivial

/-- Where the engine's goroutine stands.

* `fresh`: before `MarkEngineRunning`
* `running`: in `eng.Run`
* `finished`: `eng.Run` has returned
* `marking unexpected`, `marked unexpected`: in `MarkEngineStopped`, before and after its
  first store
* `ended` -/
inductive Engine
  | fresh
  | running
  | finished
  | marking (unexpected : Bool)
  | marked (unexpected : Bool)
  | ended
  deriving DecidableEq, Repr

/-- Where the server's goroutine stands.

* `fresh`: before `httpServer` is set
* `registered`: it is set, and nothing listens yet
* `serving`: in `Serve`
* `failed`: `ListenAndServe` has returned an error
* `reported`: the error is in `serveErr`, `cancel` not yet called
* `ended` -/
inductive Http
  | fresh
  | registered
  | serving
  | failed
  | reported
  | ended
  deriving DecidableEq, Repr

/-- The goroutine of `waitTimeout`: not started, in `wg.Wait`, or `done` is closed. -/
inductive Waiter
  | absent
  | waiting
  | closed
  deriving DecidableEq, Repr

/-- The program. `streams` says of each stream whether its goroutine runs, and
`transactions` how many transactions of the store are in progress. -/
structure State where
  now : ℤ
  signaled : Bool
  canceled : Bool
  since : ℤ
  main : Main
  engine : Engine
  http : Http
  streams : List Bool
  waiter : Waiter
  httpServer : Bool
  inShutdown : Bool
  requests : ℕ
  serveErr : Bool
  engineRunning : Bool
  engineStoppedUnexpected : Bool
  panicked : Bool
  transactions : ℕ
  storeOpen : Bool
  held : ℤ
  missed : Bool
  timedOut : Bool
  listenFailed : Bool
  lateUses : ℕ
  lateRequests : ℕ
  deriving DecidableEq, Repr

/-- What happens.

* `tick d`: time passes
* `signal`: the process is signaled, which cancels the context
* `next`: `Run` goes on; in a `select`, because what it waits for has happened
* `timeout`: `Run` goes on because its time is up
* `wait`: the goroutine of `waitTimeout` goes on
* `engineNext`: the engine's goroutine goes on
* `engineUse`, `engineDone`: the engine begins a transaction of the store, or one ends
* `enginePanic`: the engine panics
* `httpNext ok`: the server's goroutine goes on; `ok` says whether listening succeeds
* `httpError`: accepting connections fails for good
* `stream i`: the goroutine of stream `i` ends
* `request`, `response`: a request comes in, or is answered -/
inductive Event
  | tick (d : ℕ)
  | signal
  | next
  | timeout
  | wait
  | engineNext
  | engineUse
  | engineDone
  | enginePanic
  | httpNext (ok : Bool)
  | httpError
  | stream (i : ℕ)
  | request
  | response
  deriving DecidableEq, Repr

namespace State

variable (s : State)

/-- Cancel the context; only the first time counts. -/
def cancel : State := { s with canceled := true, since := if s.canceled then s.since else s.now }

/-- All goroutines of the wait group have ended. -/
def drained : Bool := s.engine = .ended ∧ s.http = .ended ∧ ∀ b ∈ s.streams, b = false

/-- `Close` waits for transactions. -/
def blocked : Bool :=
  match s.main with
  | .deferred _ => 0 < s.transactions
  | _ => false

/-- `Run` goes on. -/
def next : State :=
  match s.main with
  | .serving => if s.canceled then { s with main := .stopping } else s
  | .stopping =>
    if s.httpServer then { s with main := .closing s.now, inShutdown := true }
    -- there is no server to stop yet
    else { s with main := .draining s.now, waiter := .waiting, missed := true }
  | .closing _ =>
    if s.requests = 0 then { s with main := .draining s.now, waiter := .waiting } else s
  | .draining _ => if s.waiter = .closed then { s with main := .result } else s
  | .result => { s with main := .deferred s.serveErr, serveErr := false }
  | .deferred err =>
    if s.transactions = 0 then { s with main := .returned err, storeOpen := false } else s
  | .returned _ => s

/-- `Run` goes on because its time is up. -/
def timeout : State :=
  match s.main with
  | .closing begun =>
    if begun + serverShutdownTimeout ≤ s.now then
      { s with main := .draining s.now, waiter := .waiting }
    else s
  | .draining begun =>
    if begun + drainTimeout ≤ s.now then { s with main := .result, timedOut := true } else s
  | _ => s

/-- The engine's goroutine goes on. -/
def engineNext : State :=
  match s.engine with
  | .fresh => { s with engine := .running, engineRunning := true }
  | .running => if s.transactions = 0 then { s with engine := .finished } else s
  | .finished => { s with engine := .marking (!s.canceled) }
  | .marking unexpected => { s with engine := .marked unexpected, engineRunning := false }
  | .marked unexpected =>
    { s with
      engine := .ended
      engineStoppedUnexpected := s.engineStoppedUnexpected || unexpected }
  | .ended => s

/-- The server's goroutine goes on. -/
def httpNext (ok : Bool) : State :=
  match s.http with
  | .fresh => { s with http := .registered, httpServer := true }
  | .registered =>
    if s.inShutdown then { s with http := .ended }
    else if ok then { s with http := .serving }
    else { s with http := .failed, listenFailed := true }
  | .serving => if s.inShutdown then { s with http := .ended } else s
  | .failed => { s with http := .reported, serveErr := true }
  | .reported => { s.cancel with http := .ended }
  | .ended => s

/-- One event. -/
def step (s : State) : Event → State
  | .tick d => { s with now := s.now + d, held := if s.blocked then s.held + d else s.held }
  | .signal => { s.cancel with signaled := true }
  | .next => s.next
  | .timeout => s.timeout
  | .wait => if s.waiter = .waiting ∧ s.drained then { s with waiter := .closed } else s
  | .engineNext => s.engineNext
  | .engineUse =>
    if s.engine = .running ∨ s.panicked then
      if s.storeOpen then { s with transactions := s.transactions + 1 }
      else { s with lateUses := s.lateUses + 1 }
    else s
  | .engineDone => { s with transactions := s.transactions - 1 }
  | .enginePanic =>
    if s.engine = .running then { s with engine := .ended, panicked := true } else s
  | .httpNext ok => s.httpNext ok
  | .httpError =>
    if s.http = .serving ∧ ¬s.inShutdown then { s with http := .failed, listenFailed := true } else s
  | .stream i => { s with streams := s.streams.set i false }
  | .request =>
    if s.http = .serving ∧ ¬s.inShutdown then
      { s with
        requests := s.requests + 1
        lateRequests :=
          if s.main = .serving ∨ s.main = .stopping then s.lateRequests else s.lateRequests + 1 }
    else s
  | .response => { s with requests := s.requests - 1 }

/-- The goroutines have been launched: `k` streams, two or three. -/
def launched (k : ℕ) : State where
  now := 0
  signaled := false
  canceled := false
  since := 0
  main := .serving
  engine := .fresh
  http := .fresh
  streams := List.replicate k true
  waiter := .absent
  httpServer := false
  inShutdown := false
  requests := 0
  serveErr := false
  engineRunning := false
  engineStoppedUnexpected := false
  panicked := false
  transactions := 0
  storeOpen := true
  held := 0
  missed := false
  timedOut := false
  listenFailed := false
  lateUses := 0
  lateRequests := 0

/-- The state after a list of events. -/
def run (s : State) (es : List Event) : State := Lib.run step s es

/-- `Run` is never late. -/
def Prompt (s : State) : Event → Prop
  | .tick d => s.main.InTime s.canceled s.transactions (s.now + d)
  | _ => True

instance Prompt.decidable (s : State) : ∀ e, Decidable (s.Prompt e)
  | .tick d => inferInstanceAs (Decidable (s.main.InTime s.canceled s.transactions (s.now + d)))
  | .signal | .next | .timeout | .wait | .engineNext | .engineUse | .engineDone | .enginePanic
  | .httpNext _ | .httpError | .stream _ | .request | .response => isTrue trivial

end State

/-- The events in which only `Run` and the clock take part. -/
def Event.own : Event → Bool
  | .tick _ | .next | .timeout => true
  | _ => false

end TxGen.Shutdown
