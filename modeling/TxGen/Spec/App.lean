import TxGen.Spec.World

/-!
# Starting a process

`internal/app/app.go` up to the call of `engine.New`: `initialUTXOs` reads the persisted
UTXOs, checks that the state file belongs to the configured lock script
(`ensureStateMatchesMode`), and asks the UTXO source when nothing is persisted. Each write
to the file is a step of its own, and the process may crash between any two of them.

The record of the world is joined by the two entries of the file's metadata that the
check uses; the hash of a script is a parameter.
-/

namespace TxGen

/-- `Mode.Name`. -/
inductive ModeName
  | taggedDrop
  | p2pkh
  deriving DecidableEq, Repr

variable {Hash : Type}

/-- A mode that signs its inputs is P2PKH. -/
def Mode.name (m : Mode Hash) : ModeName :=
  match m.unlocker with
  | none => .taggedDrop
  | some _ => .p2pkh

/-- Why `initialUTXOs` returned an error. -/
inductive StartError
  | stateMismatch (stored current : Bytes)
  | legacyState
  | writeLockScriptHash
  | writeTxMode
  | fetchUTXOs
  deriving DecidableEq, Repr

/-- Where `initialUTXOs` stands.

* `load`: before it reads the file
* `writeHash`: about to record the lock script's hash
* `writeMode utxos`: about to record the mode's name
* `fetch`: waiting for the UTXO source
* `new initial`: it has returned `initial`, `engine.New` is not yet called -/
inductive BootPc
  | load
  | writeHash
  | writeMode (utxos : List UTXO)
  | fetch
  | new (initial : List UTXO)
  deriving DecidableEq, Repr

/-- A process before `engine.New`. -/
structure Boot (Hash : Type) where
  options : Options Hash
  pc : BootPc

/-- The world, the metadata of its state file (`lockScriptHash` is empty when it was never
written), the process that is about to start an engine, and how the last such process
failed. -/
structure App (Hash : Type) where
  world : World Hash
  lockScriptHash : Bytes
  txMode : Option ModeName
  boot : Option (Boot Hash)
  error : Option StartError

/-- A process starts, takes its next step, gets an answer of the UTXO source, or crashes;
or the world takes a step. -/
inductive AppEvent (Hash : Type)
  | start (o : Options Hash)
  | boot (ok : Bool)
  | fetched (answer : Option (List UTXO))
  | crash
  | world (e : Event Hash)

namespace App

variable (sdk : SDK Hash) (scriptHash : Bytes → Bytes) (a : App Hash)

/-- `initialUTXOs` returns an error, and with it the process. -/
def fail (e : StartError) : App Hash := { a with boot := none, error := some e }

/-- The process goes on at `pc`. -/
def goto (o : Options Hash) (pc : BootPc) : App Hash := { a with boot := some ⟨o, pc⟩ }

/-- `ensureStateMatchesMode` up to its first write. -/
def check (o : Options Hash) (utxos : List UTXO) : App Hash :=
  let current := scriptHash o.mode.lockScript
  if a.lockScriptHash ≠ [] ∧ a.lockScriptHash ≠ current then
    a.fail (.stateMismatch a.lockScriptHash current)
  else if a.lockScriptHash = [] ∧ utxos ≠ [] then a.fail .legacyState
  else if a.lockScriptHash = [] then a.goto o .writeHash
  else a.goto o (.writeMode utxos)

/-- The next step of `initialUTXOs`, and the call of `engine.New`. -/
def bootStep (b : Boot Hash) (ok : Bool) : App Hash :=
  match b.pc with
  | .load => a.check scriptHash b.options a.world.store.loadAll
  | .writeHash =>
    if ok then
      { a with lockScriptHash := scriptHash b.options.mode.lockScript }.goto b.options (.writeMode [])
    else a.fail .writeLockScriptHash
  | .writeMode utxos =>
    if ok then
      { a with txMode := some b.options.mode.name }.goto b.options
        (if utxos = [] then .fetch else .new utxos)
    else a.fail .writeTxMode
  | .fetch => a
  | .new initial =>
    { a with boot := none, world := a.world.step sdk (.start b.options initial) }

/-- One event. One process uses the file at a time. -/
def step (a : App Hash) : AppEvent Hash → App Hash
  | .start o =>
    match a.boot, a.world.proc with
    | none, none => { a with boot := some ⟨o, .load⟩, error := none }
    | _, _ => a
  | .boot ok =>
    match a.boot with
    | none => a
    | some b => a.bootStep sdk scriptHash b ok
  | .fetched answer =>
    match a.boot with
    | some ⟨o, .fetch⟩ =>
      match answer with
      | none => a.fail .fetchUTXOs
      | some utxos => a.goto o (.new utxos)
    | _ => a
  | .crash => { a with boot := none, world := a.world.step sdk .crash }
  | .world e =>
    match e with
    | .start .. => a
    | _ => { a with world := a.world.step sdk e }

/-- A new state file. -/
def init : App Hash := ⟨World.init Store.empty, [], none, none, none⟩

/-- The state after a list of events. -/
def steps (a : App Hash) (es : List (AppEvent Hash)) : App Hash :=
  Lib.run (step sdk scriptHash) a es

end App

end TxGen
