import TxGen.Lib.Watchdog
import TxGen.Spec.Backoff
import TxGen.Spec.SSE

/-!
# Keeping one stream connected

`streamLoop`, `connect` and `watchIdle` of `internal/sse`, for one stream: the loop that
connects, reads until the connection ends, and reconnects after a delay, and the watcher
that every connection has beside it, which closes the body when no line has come for the
idle timeout. Times are in nanoseconds.

A step goes from one point at which a goroutine can be delayed to the next. What the
server sends, how requests end, how long handlers take and when the context is canceled
comes from outside; where a `select` has two ways to go on, the event says which one is
taken. Read after read, what the scanner has in its buffer is the list of lines it has
still to return: a line that is not complete is no line yet.

`connected` is the gauge `txgen_sse_connected`. `passes` records the turns of the loop,
the latest first; nothing depends on it.
-/

namespace TxGen.Stream

open Lib

def defaultIdleTimeout : ℤ := 60 * 10 ^ 9

def defaultReconnectInitial : ℤ := 10 ^ 9

def defaultReconnectMax : ℤ := 30 * 10 ^ 9

/-- The durations of `Options`. -/
structure Options where
  reconnectMin : ℤ
  reconnectMax : ℤ
  idleTimeout : ℤ
  deriving DecidableEq, Repr

/-- The durations of a `subscriber`. -/
structure Subscriber where
  reconnectMin : ℤ
  reconnectMax : ℤ
  idleTimeout : ℤ
  deriving DecidableEq, Repr

/-- `newSubscriber`. -/
def newSubscriber (opts : Options) : Subscriber :=
  let reconnectMin := if opts.reconnectMin ≤ 0 then defaultReconnectInitial else opts.reconnectMin
  let reconnectMax := if opts.reconnectMax ≤ 0 then defaultReconnectMax else opts.reconnectMax
  let idle := if opts.idleTimeout ≤ 0 then defaultIdleTimeout else opts.idleTimeout
  ⟨reconnectMin, max reconnectMax reconnectMin, idle⟩

/-- Where the loop stands.

* `head`: before its condition
* `request`: `connect` waits for the answer to its request
* `scan`: in `scanner.Scan`
* `handle last`: in the handler; `last` for the dispatch after the scan
* `stop`: the scan is over, `stopIdle` not yet called
* `wait uptime`: `stopIdle` waits for the watcher
* `disconnected uptime`: `connect` has returned
* `sleep wakeAt`: in the delay before the next turn
* `returned`: the context is canceled and the loop at its end -/
inductive Pc
  | head
  | request
  | scan
  | handle (last : Bool)
  | stop
  | wait (uptime : ℤ)
  | disconnected (uptime : ℤ)
  | sleep (wakeAt : ℤ)
  | returned
  deriving DecidableEq, Repr

/-- `connect` has answered 200 and not returned. -/
def Pc.connection : Pc → Bool
  | .scan | .handle _ | .stop | .wait _ => true
  | _ => false

/-- A turn of the loop: how long the stream was up, and the delay after it. -/
structure Pass where
  uptime : ℤ
  delay : ℤ
  deriving DecidableEq, Repr

/-- The loop of a stream with its watcher, which also has the time. -/
structure State where
  ctxDone : Bool
  pc : Pc
  attempt : ℤ
  watch : Watchdog
  established : ℤ
  buffered : List Bytes
  reader : SSE.Reader
  connected : Bool
  passes : List Pass
  deriving DecidableEq

/-- What happens.

* `tick d`: time passes
* `cancel`: the context is canceled
* `next`: the loop takes a step of its own
* `answer ok`: `Client.Do` returns, with a status of 200 or otherwise
* `recv lines`: the scanner reads from the body and has `lines` complete
* `line`: `Scan` returns the next of them
* `ended`: `Scan` returns false
* `handled`: the handler returns
* `disconnect rand`: the loop counts the turn and draws the jitter of its delay
* `wake timer`: `backoff.Sleep` ends, by its timer or with the context
* `watch e`: the watcher takes a step -/
inductive Event
  | tick (d : ℕ)
  | cancel
  | next
  | answer (ok : Bool)
  | recv (lines : List Bytes)
  | line
  | ended
  | handled
  | disconnect (rand : Backoff.Rand)
  | wake (timer : Bool)
  | watch (e : Watchdog.Event)

namespace State

variable (sub : Subscriber) (s : State)

def now : ℤ := s.watch.now

/-- What happens to the watcher. -/
def watched (e : Watchdog.Event) : State := { s with watch := s.watch.step sub.idleTimeout e }

/-- `connect` after an answer of 200: a watcher is started and signaled, and the scan
begins. -/
def opened : State :=
  { s with
    pc := .scan
    watch := Watchdog.begin s.now
    established := s.now
    buffered := []
    reader := SSE.Reader.start
    connected := true }

/-- A line of the scanner: it counts as activity, and a blank one dispatches the event. -/
def scanLine (text : Bytes) (rest : List Bytes) : State :=
  { s.watched sub .signal with
    pc := if text = [] ∧ s.reader.event ≠ [] then .handle false else .scan
    buffered := rest
    reader := s.reader.line text }

/-- The scan is over; what has been collected is dispatched. -/
def scanEnd : State :=
  { s with
    pc := if s.reader.event ≠ [] then .handle true else .stop
    reader := s.reader.dispatch }

/-- `streamLoop` after `connect` has returned and the context is not canceled. -/
def reconnect (uptime : ℤ) (rand : Backoff.Rand) : State :=
  let attempt := (if uptime ≥ sub.reconnectMax then 0 else s.attempt) + 1
  -- `Reconnect` returns a delay for every draw
  let delay := (Backoff.reconnect Backoff.wrap rand sub.reconnectMin sub.reconnectMax
    attempt).toOption.getD 0
  { s with
    pc := .sleep (s.now + delay)
    attempt
    connected := false
    passes := ⟨uptime, delay⟩ :: s.passes }

/-- A step of the loop that waits for nothing from outside. -/
def nextStep : State :=
  match s.pc with
  | .head => { s with pc := if s.ctxDone then .returned else .request }
  | .stop => { s.watched sub .stop with pc := .wait (max (s.now - s.established) 1) }
  | .wait uptime =>
    -- the deferred calls: the watcher has returned, then the gauge is cleared
    if s.watch.pc = .returned then { s with pc := .disconnected uptime, connected := false } else s
  | _ => s

/-- One event. -/
def step (s : State) : Event → State
  | .tick d => s.watched sub (.tick d)
  | .cancel => { s with ctxDone := true }
  | .next => s.nextStep sub
  | .answer ok =>
    match s.pc with
    | .request => if ok then s.opened else { s with pc := .disconnected 0 }
    | _ => s
  | .recv lines =>
    match s.pc with
    -- a body that has been closed gives nothing any more
    | .scan => if s.buffered = [] ∧ s.watch.fired = none then { s with buffered := lines } else s
    | _ => s
  | .line =>
    match s.pc, s.buffered with
    | .scan, text :: rest => s.scanLine sub text rest
    | _, _ => s
  | .ended =>
    match s.pc, s.buffered with
    | .scan, [] => s.scanEnd
    | _, _ => s
  | .handled =>
    match s.pc with
    | .handle last => { s with pc := if last then .stop else .scan }
    | _ => s
  | .disconnect rand =>
    match s.pc with
    | .disconnected uptime =>
      if s.ctxDone then { s with pc := .returned } else s.reconnect sub uptime rand
    | _ => s
  | .wake timer =>
    match s.pc with
    | .sleep wakeAt =>
      if timer then if wakeAt ≤ s.now then { s with pc := .head } else s
      else if s.ctxDone then { s with pc := .returned } else s
    | _ => s
  | .watch e => if e.own then s.watched sub e else s

/-- The goroutine of a stream begins. -/
def start : State :=
  ⟨false, .head, 0, Watchdog.absent 0, 0, [], SSE.Reader.start, false, []⟩

/-- The state after a list of events. -/
def run (s : State) (es : List Event) : State := Lib.run (step sub) s es

/-- Time passes only while the watcher has nothing to do. -/
def Prompt (s : State) : Event → Prop
  | .tick d => s.watch.Prompt (.tick d)
  | _ => True

instance Prompt.decidable (s : State) : ∀ e, Decidable (s.Prompt e)
  | .tick d => inferInstanceAs (Decidable (s.watch.Prompt (.tick d)))
  | .cancel | .next | .answer _ | .recv _ | .line | .ended | .handled | .disconnect _ | .wake _
  | .watch _ => isTrue trivial

/-- The steps of the two goroutines, once the context is canceled. -/
def Leaving (s : State) (e : Event) : Prop :=
  s.ctxDone = true ∧
    match e with
    | .tick _ | .cancel | .recv _ => False
    | _ => True

end State

end TxGen.Stream
