import TxGen.Lib.Binary64
import TxGen.Lib.Machine

/-!
# How fast chains broadcast

`runChains` and `runChain` with `waitActive`, `waitInterval` and `chainInterval` of
`internal/engine/chain.go`, and `SetTPS`, on a clock. Chains are started one after the
other, and those that run do not wait for the others. Between two broadcasts a chain waits
for one interval, which it computes from the rate and the number of active chains when the
wait begins. `SetTPS` stores the rate and then closes the channel of the chains that wait,
which begin their waits anew. Times are in nanoseconds.

How long a broadcast takes and how it ends comes from outside, and so does the random part
of an interval that the first wait of a chain takes. Every goroutine may be delayed at any
point: calls of `SetTPS` between their two writes, chains between reading the rate and the
number of chains, before a timer is seen, and so on. A chain whose timer has fired and whose
channel is closed may take either.

`granted` records the rate summed over time, `sent` the calls of `Broadcast`, `born` when a
chain was started, `stale` that the rate was stored or a chain started since a wait began,
and `excess` the broadcasts that this accounts for; nothing depends on them.
-/

namespace TxGen.Pace

open Lib

/-- The conversion of a double that is not negative to `time.Duration`. What becomes of
one that does not fit is left to the implementation; this is amd64. -/
def toDuration (x : ℚ) : ℤ := if x < 2 ^ 63 then ⌊x⌋ else -2 ^ 63

/-- `chainInterval`. -/
def chainInterval (tps chains : ℤ) : ℤ :=
  if chains ≤ 0 ∨ tps ≤ 0 then 10 ^ 9
  else toDuration (Binary64.round
    (Binary64.round (Binary64.round chains / Binary64.round tps) * 10 ^ 9))

/-- Where a chain stands; `first` says that it has not completed a wait yet.

* `awake`: before `waitActive`
* `paused`: in `waitActive`, the rate being 0
* `ready rate`: `waitActive` has returned the rate
* `sleep begun interval`: in `waitDuration`, for `interval` from `begun` on
* `due`: `waitInterval` has returned true
* `sending begun`: in `Broadcast`
* `ended`: the chain has returned -/
inductive Pc
  | awake (first : Bool)
  | paused (first : Bool)
  | ready (first : Bool) (rate : ℤ)
  | sleep (first : Bool) (begun interval : ℤ)
  | due
  | sending (begun : ℤ)
  | ended
  deriving DecidableEq, Repr

/-- A chain: where it stands, whether the channel it has taken is closed, whether its wait
is stale, when it was started, and the number of its broadcasts. -/
structure Chain where
  pc : Pc
  woken : Bool
  stale : Bool
  born : ℤ
  hops : ℕ
  deriving DecidableEq, Repr

structure State where
  now : ℤ
  tps : ℤ
  chainsActive : ℤ
  chains : List Chain
  granted : ℤ
  sent : ℕ
  excess : ℕ
  deriving DecidableEq, Repr

/-- What a chain does.

* `read`: it takes the channel and reads the rate
* `wait first`: it begins to wait; `first` is how long, when it is its first wait
* `timer`: its wait is over
* `restart`: its channel is closed, and it waits again
* `broadcast`, `skip`: it broadcasts, or cannot build and waits again
* `returned`: `Broadcast` returns, and the chain goes on
* `exit`: it ends, for whatever reason -/
inductive Action
  | read
  | wait (first : ℤ)
  | timer
  | restart
  | broadcast
  | skip
  | returned
  | exit
  deriving DecidableEq, Repr

/-- Time passes, `runChains` starts a chain, a call of `SetTPS` stores the rate or wakes the
chains, or chain `i` does something. -/
inductive Event
  | tick (d : ℕ)
  | spawn
  | setTPS (tps : ℤ)
  | wake
  | chain (i : ℕ) (a : Action)
  deriving DecidableEq, Repr

/-- A chain that waits for a broadcast other than its first. -/
def Chain.resting (c : Chain) : Bool :=
  match c.pc with
  | .sleep first _ _ => !first
  | _ => false

namespace State

variable (s : State)

/-- `waitActive` with what it reads first. -/
def waitActive (first : Bool) : Pc := if s.tps ≤ 0 then .paused first else .ready first s.tps

/-- `waitInterval` from the return of `waitActive` to its `select`; a wait of no time is
over at once. -/
def wait (first : Bool) (rate jitter : ℤ) : Pc :=
  let d := if first then jitter else chainInterval rate s.chainsActive
  if d ≤ 0 then .due else .sleep first s.now d

/-- What becomes of chain `c`; an action it is not up to changes nothing. -/
def act (c : Chain) : Action → Chain
  | .read =>
    match c.pc with
    | .awake first => { c with pc := s.waitActive first, woken := false, stale := false }
    | _ => c
  | .wait jitter =>
    match c.pc with
    | .ready first rate => { c with pc := s.wait first rate jitter }
    | _ => c
  | .timer =>
    match c.pc with
    | .sleep _ begun interval => if begun + interval ≤ s.now then { c with pc := .due } else c
    | _ => c
  | .restart =>
    match c.pc with
    | .paused first | .sleep first _ _ => if c.woken then { c with pc := .awake first } else c
    | _ => c
  | .broadcast =>
    match c.pc with
    | .due => { c with pc := .sending s.now, hops := c.hops + 1 }
    | _ => c
  | .skip =>
    match c.pc with
    | .due => { c with pc := .awake false }
    | _ => c
  | .returned =>
    match c.pc with
    | .sending _ => { c with pc := .awake false }
    | _ => c
  | .exit => { c with pc := .ended }

/-- One event. -/
def step (s : State) : Event → State
  | .tick d => { s with now := s.now + d, granted := s.granted + max s.tps 0 * d }
  | .spawn =>
    { s with
      chainsActive := s.chainsActive + 1
      chains := s.chains.map ({ · with stale := true }) ++ [⟨.awake true, false, false, s.now, 0⟩]
      excess := s.excess + 1 }
  | .setTPS tps => { s with tps, chains := s.chains.map ({ · with stale := true }) }
  | .wake => { s with chains := s.chains.map ({ · with woken := true }) }
  | .chain i a =>
    match s.chains[i]? with
    | none => s
    | some c =>
      let c' := s.act c a
      { s with
        chains := s.chains.set i c'
        chainsActive :=
          if c.pc ≠ .ended ∧ c'.pc = .ended then s.chainsActive - 1 else s.chainsActive
        sent := s.sent + (c'.hops - c.hops)
        excess := if c.resting ∧ c.stale ∧ c'.pc = .due then s.excess + 1 else s.excess }

/-- `runChains` begins. -/
def start (tps : ℤ) : State := ⟨0, tps, 0, [], 0, 0, 0⟩

/-- The state after a list of events. -/
def run (s : State) (es : List Event) : State := Lib.run step s es

/-- The rates that are set are at most `max`. -/
def Within (max : ℤ) (_ : State) : Event → Prop
  | .setTPS tps => tps ≤ max
  | .tick _ | .spawn | .wake | .chain _ _ => True

/-- Chain `c` is not late at the time `now`: it has gone on as soon as it could, where a
broadcast may take up to `latency`. -/
def InTime (latency now : ℤ) (c : Chain) : Prop :=
  match c.pc with
  | .awake _ | .ready _ _ | .due => False
  | .sleep _ begun interval => now ≤ begun + interval
  | .sending begun => now ≤ begun + latency
  | .paused _ | .ended => True

instance InTime.decidable (latency now : ℤ) : ∀ c, Decidable (InTime latency now c)
  | ⟨.awake _, _, _, _, _⟩ => isFalse id
  | ⟨.ready _ _, _, _, _, _⟩ => isFalse id
  | ⟨.due, _, _, _, _⟩ => isFalse id
  | ⟨.sleep _ begun interval, _, _, _, _⟩ => inferInstanceAs (Decidable (now ≤ begun + interval))
  | ⟨.sending begun, _, _, _, _⟩ => inferInstanceAs (Decidable (now ≤ begun + latency))
  | ⟨.paused _, _, _, _, _⟩ => isTrue trivial
  | ⟨.ended, _, _, _, _⟩ => isTrue trivial

/-- `SetTPS` is not called, chains go on in time, each builds its transactions and none
ends; the first wait of a chain is at most an interval. -/
def Steady (latency : ℤ) (s : State) : Event → Prop
  | .tick d => ∀ c ∈ s.chains, InTime latency (s.now + d) c
  | .setTPS _ | .wake => False
  | .chain _ (.wait first) => first ≤ chainInterval s.tps s.chainsActive
  | .chain _ .skip | .chain _ .exit => False
  | .spawn | .chain _ .read | .chain _ .timer | .chain _ .restart | .chain _ .broadcast
  | .chain _ .returned => True

instance Steady.decidable (latency : ℤ) (s : State) : ∀ e, Decidable (Steady latency s e)
  | .tick d => inferInstanceAs (Decidable (∀ c ∈ s.chains, InTime latency (s.now + d) c))
  | .spawn => isTrue trivial
  | .setTPS _ => isFalse id
  | .wake => isFalse id
  | .chain _ (.wait first) =>
    inferInstanceAs (Decidable (first ≤ chainInterval s.tps s.chainsActive))
  | .chain _ .skip => isFalse id
  | .chain _ .exit => isFalse id
  | .chain _ .read => isTrue trivial
  | .chain _ .timer => isTrue trivial
  | .chain _ .restart => isTrue trivial
  | .chain _ .broadcast => isTrue trivial
  | .chain _ .returned => isTrue trivial

instance Within.decidable (max : ℤ) (s : State) : ∀ e, Decidable (Within max s e)
  | .tick _ => isTrue trivial
  | .spawn => isTrue trivial
  | .setTPS tps => inferInstanceAs (Decidable (tps ≤ max))
  | .wake => isTrue trivial
  | .chain _ _ => isTrue trivial

end State

end TxGen.Pace
