import TxGen.Lib.Unmarshal
import TxGen.Spec.Notifier
import TxGen.Spec.Restore
import TxGen.Spec.Tag

/-!
# Tips and reorgs

What the handlers of `internal/sse` do with the events of the tip stream and the reorg
stream. `encoding/json` decodes the payload; the engine keeps the last tip and the last
reorg for its state, a counter counts reorgs by their depth, and `ReportReorg` of
`internal/notifier` posts them to Slack.

Each stream has a goroutine of its own that calls its handler. The two handlers share no
variable, so that what one of them does is a step. Times are in nanoseconds, but for those
of blocks, which are in seconds.
-/

namespace TxGen.Feed

open Lib

/-! ## Events -/

/-- `BlockHeader`. -/
structure BlockHeader where
  version : ℤ
  prevHash : List Char
  merkleRoot : List Char
  timestamp : ℕ
  bits : ℕ
  nonce : ℕ
  height : ℕ
  hash : List Char
  deriving DecidableEq, Repr

def BlockHeader.zero : BlockHeader := ⟨0, [], [], 0, 0, 0, 0, []⟩

/-- The fields of a header with their names in JSON. -/
def BlockHeader.fields : List (RecordField BlockHeader) :=
  [.of "version" version (fun h version => { h with version }) (intoNumber (signed 32)),
    .of "previousHash" prevHash (fun h prevHash => { h with prevHash }) intoString,
    .of "merkleRoot" merkleRoot (fun h merkleRoot => { h with merkleRoot }) intoString,
    .of "time" timestamp (fun h timestamp => { h with timestamp }) (intoNumber (unsigned 32)),
    .of "bits" bits (fun h bits => { h with bits }) (intoNumber (unsigned 32)),
    .of "nonce" nonce (fun h nonce => { h with nonce }) (intoNumber (unsigned 32)),
    .of "height" height (fun h height => { h with height }) (intoNumber (unsigned 32)),
    .of "hash" hash (fun h hash => { h with hash }) intoString]

/-- A header decoded from a value. -/
abbrev BlockHeader.into : BlockHeader → Json → Option BlockHeader := intoRecord fields

/-- `ReorgEvent`. -/
structure ReorgEvent where
  orphanedHashes : Slice (List Char)
  commonAncestor : Option BlockHeader
  newTip : Option BlockHeader
  depth : ℕ
  deriving DecidableEq, Repr

def ReorgEvent.zero : ReorgEvent := ⟨.empty, none, none, 0⟩

def ReorgEvent.fields : List (RecordField ReorgEvent) :=
  [.of "orphanedHashes" orphanedHashes (fun r orphanedHashes => { r with orphanedHashes })
      (intoSlice [] intoString),
    .of "commonAncestor" commonAncestor (fun r commonAncestor => { r with commonAncestor })
      (intoPointer .zero BlockHeader.into),
    .of "newTip" newTip (fun r newTip => { r with newTip }) (intoPointer .zero BlockHeader.into),
    .of "depth" depth (fun r depth => { r with depth }) (intoNumber (unsigned 32))]

/-- A reorg decoded from a value. -/
abbrev ReorgEvent.into : ReorgEvent → Json → Option ReorgEvent := intoRecord fields

/-- `reorgHeight`: the first height that is replaced, or 0 when it is not known. -/
def reorgHeight (r : ReorgEvent) : ℤ :=
  match r.commonAncestor, r.newTip with
  | some ancestor, _ => ancestor.height + 1
  | none, some tip =>
    if r.depth > 0 ∧ tip.height ≥ r.depth then (tip.height - r.depth : ℕ) + 1 else 0
  | none, none => 0

/-- The tip that is left. -/
def ReorgEvent.tipBefore (r : ReorgEvent) : List Char := r.orphanedHashes.items.headD []

/-- The tip that takes its place. -/
def ReorgEvent.tipAfter (r : ReorgEvent) : List Char :=
  match r.newTip with
  | some tip => tip.hash
  | none => []

/-! ## What is kept -/

/-- `SSEState`. -/
structure SSEState where
  connected : Bool
  tipHeight : ℕ
  tipHash : List Char
  tipTime : ℕ
  deriving DecidableEq, Repr

/-- `ReorgRecord`. -/
structure ReorgRecord where
  height : ℤ
  depth : ℕ
  time : ℤ
  chainsImpacted : ℕ
  tipBefore : List Char
  tipAfter : List Char
  deriving DecidableEq, Repr

/-- The environment and the instance that messages to Slack are marked with. -/
structure Reporter where
  env : Bytes
  instanceID : Bytes
  deriving DecidableEq, Repr

/-- The engine's state as far as events change it, the counter of reorgs by the label of
their depth, the notifier's map, and the messages it has posted. -/
structure State where
  sse : SSEState
  lastReorg : Option ReorgRecord
  reorgTotal : Bucket Bytes ℕ
  last : Notifier.Last
  posts : List Bytes

/-- When the program starts. -/
def State.start : State := ⟨⟨false, 0, [], 0⟩, none, .empty, .empty, []⟩

/-- `RecordTip`. -/
def State.recordTip (s : State) (height : ℕ) (hash : List Char) (blockTime : ℕ) : State :=
  { s with sse := ⟨true, height, hash, blockTime⟩ }

/-- What a handler finds: the time at which it records a reorg, the number of chains that
are active then, the time at which it looks whether to post it, and the order in which the
notifier then goes over its map. -/
structure Moment where
  time : ℤ
  chainsActive : ℕ
  sent : ℤ
  order : Notifier.RangeOrder

/-- The record of a reorg. -/
def ReorgEvent.record (r : ReorgEvent) (m : Moment) : ReorgRecord :=
  ⟨reorgHeight r, r.depth, m.time, m.chainsActive, r.tipBefore, r.tipAfter⟩

/-- `RecordReorg`. -/
def State.recordReorg (s : State) (record : ReorgRecord) : State :=
  { s with lastReorg := some record }

/-- `IncReorg`. -/
def State.incReorg (s : State) (depth : ℕ) : State :=
  let label := Notifier.itoa depth
  { s with reorgTotal := s.reorgTotal.put label ((s.reorgTotal.get label).getD 0 + 1) }

def deepReorg : ℕ := 3

/-- The text of a message to Slack. -/
def ReorgRecord.message (record : ReorgRecord) (n : Reporter) : Bytes :=
  ascii (if record.depth > deepReorg then ":rotating_light:" else ":warning:") ++
    ascii " Reorg detected: height=" ++ Notifier.itoa record.height ++
    ascii " depth=" ++ Notifier.itoa record.depth ++
    ascii " chains=" ++ Notifier.itoa record.chainsImpacted ++
    ascii " tip " ++ record.tipBefore.flatMap encodeRune ++
    ascii "->" ++ record.tipAfter.flatMap encodeRune ++
    ascii " [" ++ n.env ++ ascii "/" ++ n.instanceID ++ ascii "]"

/-- `ReportReorg`: posts a reorg, at most once for a height within the window. -/
def State.reportReorg (n : Reporter) (m : Moment) (s : State) (record : ReorgRecord) : State :=
  match Notifier.shouldSend m.order m.sent (Notifier.reorgKey record.height) s.last with
  | (false, last) => { s with last }
  | (true, last) => { s with last, posts := s.posts ++ [record.message n] }

/-- `handleTip`. -/
def State.handleTip (s : State) (data : Bytes) : State :=
  match unmarshal .zero BlockHeader.into data with
  | none => s
  | some h => s.recordTip h.height h.hash h.timestamp

/-- `handleReorg`, with or without a reporter. -/
def State.handleReorg (reporter : Option Reporter) (m : Moment) (s : State) (data : Bytes) : State :=
  match unmarshal .zero ReorgEvent.into data with
  | none => s
  | some r =>
    let record := r.record m
    let s := (s.recordReorg record).incReorg r.depth
    match reporter with
    | none => s
    | some n => s.reportReorg n m record

/-- One of the streams hands an event to its handler. -/
inductive Event
  | tip (data : Bytes)
  | reorg (data : Bytes) (m : Moment)

def State.step (reporter : Option Reporter) (s : State) : Event → State
  | .tip data => s.handleTip data
  | .reorg data m => s.handleReorg reporter m data

/-- The payloads that the tip stream hands over. -/
def tipData : List Event → List Bytes
  | [] => []
  | .tip data :: es => data :: tipData es
  | .reorg .. :: es => tipData es

/-- The payloads that the reorg stream hands over, with the moments. -/
def reorgData : List Event → List (Bytes × Moment)
  | [] => []
  | .tip _ :: es => reorgData es
  | .reorg data m :: es => (data, m) :: reorgData es

end TxGen.Feed
