import TxGen.Spec.Status
import TxGen.Spec.World

/-!
# A running engine with its state record

The world of `TxGen.Spec.World` together with the rate and the state record of the
running process: what each step of its goroutines writes to the record, the calls of
`SetTPS`, and how `Run` ends. A goroutine writes to the record in the step of the store
transaction before it, which no other write to the record depends on. A call of
`SetTPS` is one step here; `TxGen.Spec.Rate` takes it apart.
-/

namespace TxGen

/-- Where `Run` stands: in `bootstrap`, or before; in `runChains`, with the initial
lifecycle set; after the write of `stopped`, waiting for the chains; at its end. -/
inductive RunPc
  | bootstrap
  | chains
  | stopped
  | returned
  deriving DecidableEq, Repr

/-- What a goroutine records of a broadcast. -/
inductive Record
  | ok
  | fail
  deriving DecidableEq, Repr

/-- The world, the control of its running process, and where its `Run` stands. -/
structure Live (Hash : Type) where
  world : World Hash
  control : Control
  run : RunPc

/-- A step of the world, or a call of `SetTPS`. -/
inductive LiveEvent (Hash : Type)
  | world (e : Event Hash)
  | setTPS (tps : ℤ)

variable {Hash : Type} (sdk : SDK Hash)

/-- `Run` has returned an error. -/
def Main.isFailed : Main Hash → Bool
  | .failed _ => true
  | _ => false

/-- What a step of goroutine `i` records: a chain every outcome of its broadcast and
every failed store write, a fanout only its success. -/
def Proc.record (q : Proc Hash) (i : ℕ) (e : TaskEvent) : Option Record :=
  match q.tasks[i]? with
  | none => none
  | some t =>
    match e, t.pc with
    | .save ok _, .wait =>
      match t.build sdk q.mode with
      | .error _ => none
      | .ok p => if t.kind = .sustain ∧ ¬(ok = true ∧ p.txID ≠ []) then some .fail else none
    | .clear _, .rejected _ => if t.kind = .sustain then some .fail else none
    | .commit true, .accepted _ => some .ok
    | .commit false, .accepted _ => if t.kind = .sustain then some .fail else none
    | _, _ => none

/-- The record after what a goroutine records. -/
def State.after (s : State) : Option Record → State
  | some .ok => s.recordBroadcastOk
  | some .fail => s.recordBroadcastFail
  | none => s

/-- What a step of the main goroutine from `q` to `q'` writes to the record: `bootstrap`
begins at `ready`, and `Run` may return an error. -/
def Proc.bootWrite (q q' : Proc Hash) (s : State) : State :=
  let begun := match q.main with
    | .ready => s.bootstrap q.numChains
    | _ => s
  if q'.main.isFailed then begun.bootstrapError q.ctxDone else begun

namespace Live

variable (s : Live Hash)

/-- A change of the state record. -/
def setState (f : State → State) : Live Hash := { s with control := s.control.setState f }

/-- A step of the main goroutine before `runChains`. -/
def bootStep (q : Proc Hash) (ok : Bool) : Live Hash :=
  if q.main.isFailed then s
  else
    let w' := s.world.mainStep q ok
    match w'.proc with
    | none => { s with world := w' }
    | some q' => { s.setState (q.bootWrite q') with world := w' }

/-- A step of `runChains`: it sets the lifecycle, starts the queued chains, and when the
context is canceled writes `stopped` and waits for the chains. -/
def chainsStep (q : Proc Hash) (ok : Bool) : Live Hash :=
  match s.run with
  | .bootstrap =>
    { s.setState (·.runChains s.control.tps q.numChains) with run := .chains }
  | .chains =>
    if q.queue ≠ [] then { s with world := s.world.mainStep q ok }
    else if q.ctxDone then { s.setState State.stop with run := .stopped }
    else s
  | .stopped => if q.tasks.all Task.ended then { s with run := .returned } else s
  | .returned => s

/-- A step of the main goroutine. -/
def mainStep (q : Proc Hash) (ok : Bool) : Live Hash :=
  match q.main with
  | .chains => s.chainsStep q ok
  | _ => s.bootStep q ok

/-- A step of the world. -/
def worldStep (e : Event Hash) : Live Hash :=
  match e, s.world.proc with
  | .main ok, some q => s.mainStep q ok
  | .task i e, some q =>
    { s.setState (·.after (q.record sdk i e)) with world := s.world.taskStep sdk q i e }
  | .start o initial, none =>
    let w' := s.world.step sdk (.start o initial)
    match w'.proc with
    | none => s
    | some q => ⟨w', Control.new q.numChains, .bootstrap⟩
  | .configure u, some q =>
    if q.main.starting then s
    else match q.configureBootstrap u with
      | .error _ => s
      | .ok q' => { s.setState (·.configured q'.numChains) with world := s.world.setProc q' }
  | e, _ => { s with world := s.world.step sdk e }

/-- One event. `SetTPS` is called once `New` has returned. -/
def step (s : Live Hash) : LiveEvent Hash → Live Hash
  | .world e => s.worldStep sdk e
  | .setTPS tps =>
    match s.world.proc with
    | none => s
    | some q => if q.main.starting then s else { s with control := s.control.setTPS tps }

/-- A world without a process. -/
def init (st : Store Hash) : Live Hash := ⟨World.init st, Control.new 0, .bootstrap⟩

/-- The state after a list of events. -/
def steps (s : Live Hash) (es : List (LiveEvent Hash)) : Live Hash := Lib.run (step sdk) s es

end Live

end TxGen
