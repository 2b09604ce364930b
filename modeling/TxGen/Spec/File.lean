import TxGen.Spec.Restore
import Mathlib.Logic.Function.Basic

/-!
# The state file, byte for byte

`internal/store` over the buckets of the embedded database: every key and every value is a
byte string, and a record is stored gob-encoded under a key made from its fields. An
operation is one transaction of the file and fails as a whole.

`StoreMap` is what the file is for: a map from outpoints to UTXOs, one from txids to
pending broadcasts, and one from names to settings.
-/

namespace TxGen

open Lib

/-- The gob encodings of the two kinds of records, which decode to what was encoded. -/
structure Gob where
  encodeUTXO : UTXO → Bytes
  decodeUTXO : Bytes → Option UTXO
  decode_encodeUTXO : ∀ u, decodeUTXO (encodeUTXO u) = some u
  encodePending : RawPending → Bytes
  decodePending : Bytes → Option RawPending
  decode_encodePending : ∀ p, decodePending (encodePending p) = some p

/-- The longest key of a bucket. -/
def maxKeySize : ℕ := 32768

/-- Why an operation fails. -/
inductive StoreError
  | pendingTxIDRequired
  | keyRequired
  | keyTooLarge
  deriving DecidableEq, Repr

/-- `Put` of a bucket. -/
def putEntry (b : Bucket Bytes Bytes) (key value : Bytes) : Except StoreError (Bucket Bytes Bytes) :=
  if key = [] then .error .keyRequired
  else if maxKeySize < key.length then .error .keyTooLarge
  else .ok (b.put key value)

/-- The buckets of the file, `settings` being the one named `meta`. -/
structure File where
  utxos : Bucket Bytes Bytes
  pending : Bucket Bytes Bytes
  settings : Bucket Bytes Bytes

/-- A call of the store that writes; `now` is the time of a `SavePending`. -/
inductive FileOp
  | saveUTXO (u : UTXO)
  | deleteUTXO (txid : Bytes) (vout : ℕ)
  | setMeta (key value : Bytes)
  | savePending (p : RawPending) (now : ℕ)
  | clearPending (txid : Bytes)
  | commitPending (txid : Bytes) (spent created : List UTXO)

namespace File

/-- A new file. -/
def empty : File := ⟨Bucket.empty, Bucket.empty, Bucket.empty⟩

variable (gob : Gob) (f : File)

/-- `SaveUTXO`. -/
def saveUTXO (u : UTXO) : Except StoreError File := do
  let utxos ← putEntry f.utxos (utxoKey u.txHash u.txPos) (gob.encodeUTXO u)
  return { f with utxos }

/-- `DeleteUTXO`. -/
def deleteUTXO (txid : Bytes) (vout : ℕ) : Except StoreError File :=
  .ok { f with utxos := f.utxos.delete (utxoKey txid vout) }

/-- `SetMeta`. -/
def setMeta (key value : Bytes) : Except StoreError File := do
  let settings ← putEntry f.settings key value
  return { f with settings }

/-- `SavePending`: the time of a record defaults to now. -/
def savePending (p : RawPending) (now : ℕ) : Except StoreError File :=
  if p.txID = [] then .error .pendingTxIDRequired
  else do
    let p := { p with savedAt := if p.savedAt = 0 then now else p.savedAt }
    let pending ← putEntry f.pending p.txID (gob.encodePending p)
    return { f with pending }

/-- `ClearPending`. -/
def clearPending (txid : Bytes) : Except StoreError File :=
  .ok { f with pending := f.pending.delete txid }

/-- The created UTXOs of a commit, those worth something. -/
def putCreated (b : Bucket Bytes Bytes) (created : List UTXO) :
    Except StoreError (Bucket Bytes Bytes) :=
  created.foldlM (fun b u =>
    if u.value = 0 then .ok b else putEntry b (utxoKey u.txHash u.txPos) (gob.encodeUTXO u)) b

/-- `CommitPending`. -/
def commitPending (txid : Bytes) (spent created : List UTXO) : Except StoreError File := do
  let pending := if txid = [] then f.pending else f.pending.delete txid
  let removed := spent.foldl (fun b u => b.delete (utxoKey u.txHash u.txPos)) f.utxos
  let utxos ← putCreated gob removed created
  return { f with pending, utxos }

/-- A call. -/
def apply (op : FileOp) : Except StoreError File :=
  match op with
  | .saveUTXO u => f.saveUTXO gob u
  | .deleteUTXO txid vout => f.deleteUTXO txid vout
  | .setMeta key value => f.setMeta key value
  | .savePending p now => f.savePending gob p now
  | .clearPending txid => f.clearPending txid
  | .commitPending txid spent created => f.commitPending gob txid spent created

/-- The file after a call; one that fails leaves it as it is. -/
def exec (f : File) (op : FileOp) : File :=
  match f.apply gob op with
  | .ok f' => f'
  | .error _ => f

/-- `LoadAll`: every stored UTXO, if all decode. -/
def loadAll : Option (List UTXO) := f.utxos.values.mapM gob.decodeUTXO

/-- `LoadPending`: the record under each key. -/
def loadPending (key : Bytes) : Option RawPending :=
  (f.pending.get key).map (loadRecord gob.decodePending key)

/-- `GetMeta`. -/
def getMeta (key : Bytes) : Bytes := (f.settings.get key).getD []

end File

/-! ## What the file is for -/

/-- The abstract contents of a file. -/
structure StoreMap where
  utxos : Bytes × ℕ → Option UTXO
  pending : Bytes → Option RawPending
  settings : Bytes → Option Bytes

namespace StoreMap

/-- Nothing is stored. -/
def empty : StoreMap := ⟨fun _ => none, fun _ => none, fun _ => none⟩

/-- The outpoint of a UTXO. -/
def place (u : UTXO) : Bytes × ℕ := (u.txHash, u.txPos)

/-- The map after a call: the last write wins, spent UTXOs are removed before the created
ones are added, and those worth nothing are skipped. -/
def apply (m : StoreMap) : FileOp → StoreMap
  | .saveUTXO u => { m with utxos := Function.update m.utxos (place u) (some u) }
  | .deleteUTXO txid vout => { m with utxos := Function.update m.utxos (txid, vout) none }
  | .setMeta key value =>
    if key = [] then m else { m with settings := Function.update m.settings key (some value) }
  | .savePending p now =>
    if p.txID = [] then m
    else
      let p := { p with savedAt := if p.savedAt = 0 then now else p.savedAt }
      { m with pending := Function.update m.pending p.txID (some p) }
  | .clearPending txid => { m with pending := Function.update m.pending txid none }
  | .commitPending txid spent created =>
    let pending := if txid = [] then m.pending else Function.update m.pending txid none
    let removed := spent.foldl (fun f u => Function.update f (place u) none) m.utxos
    let utxos := created.foldl
      (fun f u => if u.value = 0 then f else Function.update f (place u) (some u)) removed
    { m with pending, utxos }

end StoreMap

/-! ## Keys and buckets of a call -/

/-- The keys that a call stores something under fit into a bucket. -/
def FileOp.Fits : FileOp → Prop
  | .saveUTXO u => (utxoKey u.txHash u.txPos).length ≤ maxKeySize
  | .setMeta key _ => key.length ≤ maxKeySize
  | .savePending p _ => p.txID.length ≤ maxKeySize
  | .commitPending _ _ created => ∀ u ∈ created, (utxoKey u.txHash u.txPos).length ≤ maxKeySize
  | .deleteUTXO .. | .clearPending _ => True

instance FileOp.decidableFits : ∀ op : FileOp, Decidable op.Fits
  | .saveUTXO u => inferInstanceAs (Decidable ((utxoKey u.txHash u.txPos).length ≤ maxKeySize))
  | .setMeta key _ => inferInstanceAs (Decidable (key.length ≤ maxKeySize))
  | .savePending p _ => inferInstanceAs (Decidable (p.txID.length ≤ maxKeySize))
  | .commitPending _ _ created =>
    inferInstanceAs (Decidable (∀ u ∈ created, (utxoKey u.txHash u.txPos).length ≤ maxKeySize))
  | .deleteUTXO .. | .clearPending _ => inferInstanceAs (Decidable True)

/-- The buckets by name. -/
inductive BucketName
  | utxos
  | pending
  | settings
  deriving DecidableEq, Repr

def File.bucket (f : File) : BucketName → Bucket Bytes Bytes
  | .utxos => f.utxos
  | .pending => f.pending
  | .settings => f.settings

/-- The buckets that a call writes to. -/
def FileOp.writes : FileOp → List BucketName
  | .saveUTXO _ | .deleteUTXO .. => [.utxos]
  | .setMeta .. => [.settings]
  | .savePending .. | .clearPending _ => [.pending]
  | .commitPending .. => [.utxos, .pending]

end TxGen
