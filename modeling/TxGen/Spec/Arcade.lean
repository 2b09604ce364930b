import TxGen.Lib.Machine
import TxGen.Spec.Logs

/-!
# Broadcasting

`Client.Broadcast` of `internal/arcade`, called any number of times at once. A call takes
one of the slots of the client, posts the transaction until it is accepted, refused or
given up, and gives the slot back.

A step of a call goes from one point at which it waits to the next. Where a `select` has
two ways to go on, the event says which one is taken. What a request is answered, when
timers end and when contexts are canceled comes from outside; metrics and logs are left
out.
-/

namespace TxGen.Arcade

open Lib

def defaultConcurrency : ℤ := 64

def maxResponseBytes : ℕ := 4096

/-- `Options`. -/
structure Options where
  baseURL : Bytes
  concurrency : ℤ
  retryMax : ℤ
  deriving DecidableEq, Repr

/-- The number of slots that is configured. -/
def Options.slots (opts : Options) : ℤ :=
  if opts.concurrency ≤ 0 then defaultConcurrency else opts.concurrency

/-- `Client`; `slots` is the capacity of its channel. -/
structure Client where
  baseURL : Bytes
  slots : ℕ
  retryMax : ℤ
  deriving DecidableEq, Repr

/-- `New`. -/
def new (opts : Options) : Client where
  baseURL := Logs.trimRight 47 (if opts.baseURL = [] then Logs.defaultBaseURL else opts.baseURL)
  slots := opts.slots.toNat
  retryMax := max opts.retryMax 1

/-- The errors of `Broadcast`.

* `context`: the error of the context
* `build`: `build broadcast request: ..`
* `transport`: `arcade POST /tx: ..`
* `rejected`: `arcade rejected the broadcast: HTTP ..: ..` -/
inductive BroadcastError
  | context
  | build (cause : Bytes)
  | transport (cause : Bytes)
  | rejected (status : ℕ) (body : Bytes)
  deriving DecidableEq, Repr

/-- How `http.Client.Do` ends: with an error, or with a status and what can be read of the
body, which may be cut short. -/
inductive Answer
  | failed (cause : Bytes)
  | response (status : ℕ) (body : Bytes) (cut : Bool)
  deriving DecidableEq, Repr

/-- `do`: the status and the first 4 KiB of the body, or the error. -/
def Answer.read : Answer → Except BroadcastError (ℕ × Bytes)
  | .failed cause => .error (.transport cause)
  | .response status body _ => .ok (status, body.take maxResponseBytes)

/-- Where a call stands: before it has a slot, before and after it sends the request of an
attempt, in the backoff after one, before it gives the slot back, and at its end. -/
inductive Point
  | acquire
  | post (attempt : ℤ)
  | inFlight (attempt : ℤ)
  | sleep (attempt : ℤ) (lastErr : BroadcastError)
  | release (result : Option BroadcastError)
  | returned (result : Option BroadcastError)
  deriving DecidableEq, Repr

/-- A call of `Broadcast`: whether its context is done, the number of requests it has
sent, what they were answered, and whether it has seen that the context is done. -/
structure Call where
  point : Point
  done : Bool
  sent : ℕ
  answers : List Answer
  observed : Bool
  deriving DecidableEq, Repr

/-- A call begins. -/
def Call.start : Call := ⟨.acquire, false, 0, [], false⟩

/-- The head of the loop. -/
def Client.loop (c : Client) (attempt : ℤ) (lastErr : Option BroadcastError) : Point :=
  if attempt ≤ c.retryMax then .post attempt else .release lastErr

/-- The end of a turn that was not accepted. -/
def Client.failed (c : Client) (attempt : ℤ) (lastErr : BroadcastError) (retryable : Bool) : Point :=
  if ¬retryable ∨ attempt = c.retryMax then .release (some lastErr) else .sleep attempt lastErr

/-- A turn of the loop after `post`. With an error the context is looked at. -/
def Client.attempted (c : Client) (k : Call) (attempt : ℤ) :
    Except BroadcastError (ℕ × Bytes) → Call
  | .ok (status, body) =>
    if status = 202 then { k with point := .release none }
    else { k with
      point := c.failed attempt (.rejected status body) (status = 429 ∨ status ≥ 500) }
  | .error err => { k with point := c.failed attempt err (!k.done), observed := k.done }

/-- A step of a call, or what happens to it.

* `cancel`: its context is done
* `acquire`, `wake`: the `select` takes the slot or the timer, or else `ctx.Done()`
* `send`, `answer`: a request is sent and answered
* `release`: the slot is given back -/
inductive Action
  | cancel
  | acquire (slot : Bool)
  | send
  | answer (a : Answer)
  | wake (timer : Bool)
  | release
  deriving DecidableEq, Repr

/-- A call and the number of slots in use after an action, which has no effect when the
call is not there or would block. -/
def Client.act (parseError : Bytes → Option Bytes) (c : Client) (k : Call) (used : ℕ) :
    Action → Call × ℕ
  | .cancel => ({ k with done := true }, used)
  | .acquire slot =>
    match k.point with
    | .acquire =>
      if slot then
        if used < c.slots then ({ k with point := c.loop 1 none }, used + 1) else (k, used)
      else if k.done then
        ({ k with point := .returned (some .context), observed := true }, used)
      else (k, used)
    | _ => (k, used)
  | .send =>
    match k.point with
    | .post attempt =>
      match parseError (c.baseURL ++ ascii "/tx") with
      | some cause => (c.attempted k attempt (.error (.build cause)), used)
      | none => ({ k with point := .inFlight attempt, sent := k.sent + 1 }, used)
    | _ => (k, used)
  | .answer a =>
    match k.point with
    | .inFlight attempt =>
      (c.attempted { k with answers := k.answers ++ [a] } attempt a.read, used)
    | _ => (k, used)
  | .wake timer =>
    match k.point with
    | .sleep attempt lastErr =>
      if timer then ({ k with point := c.loop (attempt + 1) (some lastErr) }, used)
      else if k.done then
        ({ k with point := .release (some .context), observed := true }, used)
      else (k, used)
    | _ => (k, used)
  | .release =>
    match k.point with
    | .release result =>
      if 0 < used then ({ k with point := .returned result }, used - 1) else (k, used)
    | _ => (k, used)

/-- The slots in use, and the calls. -/
structure State where
  used : ℕ
  calls : List Call
  deriving DecidableEq, Repr

/-- A new client. -/
def State.start : State := ⟨0, []⟩

/-- `Broadcast` is called, or call number `i` acts. -/
inductive Event
  | call
  | act (i : ℕ) (a : Action)
  deriving DecidableEq, Repr

def Client.step (parseError : Bytes → Option Bytes) (c : Client) (s : State) : Event → State
  | .call => { s with calls := s.calls ++ [Call.start] }
  | .act i a =>
    match s.calls[i]? with
    | none => s
    | some k =>
      let next := c.act parseError k s.used a
      ⟨next.2, s.calls.set i next.1⟩

end TxGen.Arcade
