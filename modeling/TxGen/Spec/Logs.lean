import TxGen.Lib.Code
import TxGen.Spec.App
import TxGen.Spec.Notifier
import TxGen.Spec.Queue
import TxGen.Spec.Script
import TxGen.Spec.Stream

/-!
# What is logged

The log records of a process that depend on its configuration: those of startup
(`app.Run` and `main`), of the loops that keep the event streams connected
(`internal/sse`), and of the Slack notifier (`internal/notifier`).

A function that logs returns entries, one for each call of the logger; what the handler
then writes of an entry is its `Record`. An error is kept as a value, and its text is
made when it is logged, as the `Error` methods of the source do. What is not code of
the repository comes in as `Library`; how requests end, when they are made and what they
bring is given from outside. The goroutines of the streams share nothing that is logged,
so the passes of their loops are taken one after the other, in any order.
-/

namespace TxGen.Logs

open Lib

/-! ## The configuration -/

/-- `slog.Level`. -/
inductive Level
  | debug
  | info
  | warn
  | error
  deriving DecidableEq, Repr

def Level.rank : Level → ℕ
  | .debug => 0
  | .info => 1
  | .warn => 2
  | .error => 3

/-- `LOG_FORMAT`. -/
inductive Format
  | json
  | text
  deriving DecidableEq, Repr

/-- `config.Config`, as `Load` returns it: texts are trimmed, and the level and the
format are among those allowed. Durations are in nanoseconds. -/
structure Config where
  adminToken : Bytes
  port : Bytes
  statePath : Bytes
  logLevel : Level
  logFormat : Format
  arcadeBaseURL : Bytes
  arcadeCallbackToken : Bytes
  wocBaseURL : Bytes
  privateKey : Bytes
  instanceID : Bytes
  environment : Bytes
  numChains : ℤ
  fanoutSize : ℤ
  sustainFee : ℕ
  maxTPS : ℤ
  broadcastConcurrency : ℤ
  broadcastRetryMax : ℤ
  httpTimeout : ℕ
  sseReconnectMin : ℕ
  sseReconnectMax : ℕ
  slackWebhookURL : Bytes
  slackChannel : Bytes
  deriving DecidableEq, Repr

/-- `***` -/
def redactedValue : Bytes := [42, 42, 42]

/-- A secret as it is shown: replaced when it is set. -/
def redact (secret : Bytes) : Bytes := if secret = [] then [] else redactedValue

/-- `Redacted`. -/
def Config.redacted (c : Config) : Config :=
  { c with
    adminToken := redact c.adminToken
    privateKey := redact c.privateKey
    arcadeCallbackToken := redact c.arcadeCallbackToken
    slackWebhookURL := redact c.slackWebhookURL }

/-- The configuration `/status` serves: the server's copy, with the bootstrap parameters
last set, redacted. -/
def Config.status (c : Config) (numChains fanoutSize : ℤ) (sustainFee : ℕ) : Config :=
  { c with numChains, fanoutSize, sustainFee }.redacted

/-! ## Records -/

/-- The value of an attribute. -/
inductive Value
  | text (b : Bytes)
  | int (n : ℤ)
  | config (c : Config)
  deriving DecidableEq, Repr

/-- What a log handler is given: level, message and attributes, without the service and
its version, which every record has. -/
structure Record where
  level : Level
  msg : String
  attrs : List (String × Value)
  deriving DecidableEq, Repr

/-! ## The streams -/

/-- The event streams. -/
inductive StreamName
  | tip
  | reorg
  | arcadeTx
  deriving DecidableEq, Repr

def StreamName.text : StreamName → Bytes
  | .tip => ascii "tip"
  | .reorg => ascii "reorg"
  | .arcadeTx => ascii "arcade_tx"

/-- The bytes `url.QueryEscape` keeps. -/
def unreserved (b : Fin 256) : Bool :=
  (48 ≤ b && b ≤ 57) || (65 ≤ b && b ≤ 90) || (97 ≤ b && b ≤ 122) ||
    b = 45 || b = 46 || b = 95 || b = 126

/-- An upper-case hexadecimal digit. -/
def hexDigit (d : ℕ) : Fin 256 := if d < 10 then Fin.ofNat 256 (48 + d) else Fin.ofNat 256 (55 + d)

def escapeByte (b : Fin 256) : Bytes :=
  if b = 32 then [43]
  else if unreserved b then [b]
  else [37, hexDigit (b.val / 16), hexDigit (b.val % 16)]

/-- `url.QueryEscape`. -/
def queryEscape (s : Bytes) : Bytes := s.flatMap escapeByte

/-- `arcade.DefaultBaseURL`. -/
def defaultBaseURL : Bytes := ascii "https://arcade-v2-us-1.bsvblockchain.tech"

/-- `strings.TrimRight` with one byte. -/
def trimRight (b : Fin 256) (s : Bytes) : Bytes := (s.reverse.dropWhile (· = b)).reverse

/-- The base of the streams' URLs. -/
def Config.streamBase (c : Config) : Bytes :=
  let base := trimRight 47 c.arcadeBaseURL
  if base = [] then defaultBaseURL else base

/-- The URL of a stream up to the callback token. -/
def Config.streamPath (c : Config) : StreamName → Bytes
  | .tip => c.streamBase ++ ascii "/chaintracks/v2/tip/stream"
  | .reorg => c.streamBase ++ ascii "/chaintracks/v2/reorg/stream"
  | .arcadeTx => c.streamBase ++ ascii "/events?callbackToken="

/-- The URL of a stream. -/
def Config.streamURL (c : Config) (st : StreamName) : Bytes :=
  c.streamPath st ++ if st = .arcadeTx then queryEscape c.arcadeCallbackToken else []

/-! ## What is not code of the repository -/

/-- What `RecordReorg` and `ReportReorg` are called with. -/
structure Reorg where
  height : ℤ
  depth : ℤ
  deriving DecidableEq, Repr

/-- What a handler does with the data of an event: the reorg it decodes, if it does, and
what it logs. -/
structure Handled where
  reorg : Option Reorg
  records : List Record

/-- * `quote`: the verb `%q`; a quoted text can be cut off the front of what follows it
* `parseError`: why `http.NewRequest` refuses a URL, if it does; the escaped value of a
  query parameter at its end makes no difference
* `lockScript`: the P2PKH lock script of a private key, if it is one
* `scriptHash`, `address`: of a lock script
* `handle`: what a handler does at some time with an event of a stream; it decodes JSON
  and counts the active chains, and does not see the configuration -/
structure Library where
  quote : Bytes → Bytes
  quote_delimited : SelfDelimiting quote
  parseError : Bytes → Option Bytes
  lockScript : Bytes → Option Bytes
  scriptHash : Bytes → Bytes
  address : Bytes → Bytes
  handle : StreamName → ℤ → Bytes → Handled

/-- The text of a `url.Error`. -/
def Library.urlError (lib : Library) (op : String) (url cause : Bytes) : Bytes :=
  ascii op ++ (ascii " " ++ (lib.quote url ++ (ascii ": " ++ cause)))

/-! ## Errors -/

/-- Why a stream ended. -/
inductive StreamError
  | request (cause : Bytes)
  | connect (cause : Bytes)
  | status (code : ℕ)
  | read (cause : Bytes)
  | eof
  deriving DecidableEq, Repr

def StreamError.text (lib : Library) (c : Config) (st : StreamName) : StreamError → Bytes
  | .request cause => ascii "build SSE request: " ++ lib.urlError "parse" (c.streamURL st) cause
  | .connect cause => ascii "connect SSE stream " ++ (st.text ++ (ascii ": " ++
      lib.urlError "Get" (c.streamURL st) cause))
  | .status code => ascii "unexpected SSE response status: " ++ appendUint code
  | .read cause => ascii "read SSE stream " ++ (st.text ++ (ascii ": " ++ cause))
  | .eof => ascii "EOF"

/-- Why a post to Slack failed. -/
inductive PostError
  | build (cause : Bytes)
  | post (cause : Bytes)
  | status (code : ℕ)
  deriving DecidableEq, Repr

def PostError.text (lib : Library) (c : Config) : PostError → Bytes
  | .build cause => ascii "build slack request: " ++ lib.urlError "parse" c.slackWebhookURL cause
  | .post cause => ascii "post to slack: " ++ lib.urlError "Post" c.slackWebhookURL cause
  | .status code => ascii "slack webhook rejected the post: HTTP " ++ appendUint code

/-! ## Entries -/

/-- A call of the logger, with what it is told. -/
inductive Entry
  | starting (commit buildDate : Bytes)
  | lockScriptReady (mode : ModeName) (scriptHash : Bytes) (sustainFee : ℕ) (address : Option Bytes)
  | restored (count : ℕ)
  | fetching
  | lookupRetry (attempt delay : ℕ) (err : Bytes)
  | loaded (count : ℕ)
  | storeClosed
  | closeFailed (err : Bytes)
  | stopped (err : Bytes)
  | txStreamDisabled
  | connected (st : StreamName)
  | handled (r : Record)
  | disconnected (st : StreamName) (err : StreamError) (delay : ℤ)
  | slackFailed (r : Reorg) (err : PostError)
  | slackSent (r : Reorg)
  deriving DecidableEq, Repr

/-- The record of an entry. -/
def Entry.record (lib : Library) (c : Config) : Entry → Record
  | .starting commit buildDate => ⟨.info, "starting", [("config", .config c.redacted),
      ("commit", .text commit), ("build_date", .text buildDate)]⟩
  | .lockScriptReady mode scriptHash sustainFee address =>
      ⟨.info, "lock script ready",
        [("mode", .text (ascii (match mode with | .taggedDrop => "tagged_drop" | .p2pkh => "p2pkh"))),
          ("script_hash", .text scriptHash), ("sustain_fee", .int sustainFee)] ++
        (match address with
          | some address => [("address", .text address)]
          | none => [])⟩
  | .restored count => ⟨.info, "restored UTXOs", [("count", .int count)]⟩
  | .fetching => ⟨.info, "fetching UTXOs", [("source", .text (ascii "whatsonchain"))]⟩
  | .lookupRetry attempt delay err => ⟨.warn, "WhatsOnChain lookup retry",
      [("attempt", .int attempt), ("backoff", .int delay), ("error", .text err)]⟩
  | .loaded count => ⟨.info, "loaded UTXOs", [("count", .int count)]⟩
  | .storeClosed => ⟨.info, "store closed", []⟩
  | .closeFailed err => ⟨.warn, "close store", [("error", .text err)]⟩
  | .stopped err => ⟨.error, "tx-gen stopped", [("error", .text err)]⟩
  | .txStreamDisabled => ⟨.info, "Arcade tx SSE disabled",
      [("reason", .text (ascii "ARCADE_CALLBACK_TOKEN not set"))]⟩
  | .connected st => ⟨.info, "SSE connected", [("stream", .text st.text)]⟩
  | .handled r => r
  | .disconnected st err delay => ⟨.warn, "SSE disconnected",
      [("stream", .text st.text), ("error", .text (err.text lib c st)), ("reconnect_in", .int delay)]⟩
  | .slackFailed r err => ⟨.warn, "slack reorg notification failed",
      [("height", .int r.height), ("depth", .int r.depth), ("error", .text (err.text lib c))]⟩
  | .slackSent r => ⟨.debug, "slack reorg notification sent",
      [("height", .int r.height), ("depth", .int r.depth)]⟩

/-! ## Startup -/

/-- How `FetchUTXOs` goes: the delays and errors of the attempts it repeats, and its
result, a number of UTXOs or an error. -/
structure Fetch where
  retries : List (ℕ × Bytes)
  result : Except Bytes ℕ

/-- How `Run` goes on once the mode is there: the store does not open, it cannot be read
or belongs to another lock script, it has UTXOs, or they are fetched. -/
inductive Initial
  | openFailed (err : Bytes)
  | refused (err : Bytes)
  | restored (count : ℕ)
  | fetch (f : Fetch)

/-- What startup meets: the build it is, the state file, an error of `engine.New` or of
closing the store, if there is one. -/
structure Startup where
  commit : Bytes
  buildDate : Bytes
  initial : Initial
  engineError : Option Bytes
  closeError : Option Bytes

/-- `NewMode`, as far as it is logged: name, lock script, and the fee with its default. The
lock script of an instance id fails only when it is blank. -/
def newMode (lib : Library) (c : Config) : Except Bytes (ModeName × Bytes × ℕ) :=
  if c.privateKey = [] then
    match Script.taggedDropLockScript c.instanceID with
    | .ok script => .ok (.taggedDrop, script, if c.sustainFee = 0 then 7 else c.sustainFee)
    | .error _ => .error (ascii "INSTANCE_ID is required for the tagged-drop lock script")
  else
    match lib.lockScript c.privateKey with
    | some script => .ok (.p2pkh, script, if c.sustainFee = 0 then 20 else c.sustainFee)
    | none => .error (ascii "PRIVATE_KEY must be a valid WIF or 32-byte hex private key")

/-- The entry of `closeStore`. -/
def closeStore (s : Startup) : Entry :=
  match s.closeError with
  | some err => .closeFailed err
  | none => .storeClosed

/-- The entries of `FetchUTXOs`. -/
def fetchUTXOs (f : Fetch) : List Entry :=
  f.retries.mapIdx fun i r => .lookupRetry (i + 1) r.1 r.2

/-- `app.Run` from the mode on: `initialUTXOs` and `engine.New`, an error of which ends
the process. The result says whether it goes on. -/
def openState (s : Startup) : List Entry × Bool :=
  let fails (log : List Entry) (err : Bytes) : List Entry × Bool :=
    (log ++ [closeStore s, .stopped err], false)
  let newEngine (log : List Entry) : List Entry × Bool :=
    match s.engineError with
    | some err => fails log (ascii "start engine: " ++ err)
    | none => (log, true)
  match s.initial with
  | .openFailed err => ([.stopped err], false)
  | .refused err => fails [] err
  | .restored count => newEngine [.restored count]
  | .fetch f =>
    match f.result with
    | .error err => fails (.fetching :: fetchUTXOs f) (ascii "fetch UTXOs: " ++ err)
    | .ok count => newEngine (.fetching :: fetchUTXOs f ++ [.loaded count])

/-- `app.Run` up to the start of the engine, with the last word of `main` when it fails.
The result says whether the engine and the streams are started. -/
def startup (lib : Library) (c : Config) (s : Startup) : List Entry × Bool :=
  match newMode lib c with
  | .error err => ([.starting s.commit s.buildDate,
      .stopped (ascii "configure transaction mode: " ++ err)], false)
  | .ok (mode, script, fee) =>
    let address := if mode = .p2pkh then some (lib.address script) else none
    (.starting s.commit s.buildDate ::
      .lockScriptReady mode (lib.scriptHash script) fee address :: (openState s).1, (openState s).2)

/-! ## The Slack notifier -/

/-- How a post ends: `Client.Do` fails, or Slack answers. -/
inductive PostReply
  | failed (cause : Bytes)
  | status (code : ℕ)
  deriving DecidableEq, Repr

/-- `post`: its error, if any. -/
def post (lib : Library) (c : Config) (reply : PostReply) : Option PostError :=
  match lib.parseError c.slackWebhookURL with
  | some cause => some (.build cause)
  | none =>
    match reply with
    | .failed cause => some (.post cause)
    | .status code => if code / 100 = 2 then none else some (.status code)

/-- The time at which an event is handled, the order in which the notifier goes over its
map, and how a post to Slack then ends. -/
structure Call where
  now : ℤ
  order : Notifier.RangeOrder
  slack : PostReply

/-- The entry of a post. -/
def slackEntry (lib : Library) (c : Config) (r : Reorg) (reply : PostReply) : Entry :=
  match post lib c reply with
  | some err => .slackFailed r err
  | none => .slackSent r

/-- `ReportReorg`, when there is a reporter. -/
def reportReorg (lib : Library) (c : Config) (last : Notifier.Last) (r : Reorg) (call : Call) :
    List Entry × Notifier.Last :=
  if c.slackWebhookURL = [] then ([], last)
  else
    match Notifier.shouldSend call.order call.now (Notifier.reorgKey r.height) last with
    | (false, last) => ([], last)
    | (true, last) => ([slackEntry lib c r call.slack], last)

/-! ## Keeping the streams connected -/

/-- How a connection ends: `Client.Do` fails, or there is a response with a status, the
chunks of its body, an error that ends the body, if one does, for how long it was up,
and what the calls of the handler meet. -/
inductive Reply
  | failed (cause : Bytes)
  | response (status : ℕ) (chunks : List Bytes) (readError : Option Bytes) (uptime : ℕ)
      (calls : ℕ → Call)

/-- The handler is called with the payloads of a stream, the first of which is number
`k`. -/
def handleAll (lib : Library) (c : Config) (st : StreamName) (calls : ℕ → Call) :
    ℕ → Notifier.Last → List Bytes → List Entry × Notifier.Last
  | _, last, [] => ([], last)
  | k, last, data :: rest =>
    let h := lib.handle st (calls k).now data
    let reported := match h.reorg with
      | some r => reportReorg lib c last r (calls k)
      | none => ([], last)
    let later := handleAll lib c st calls (k + 1) reported.2 rest
    (reported.1 ++ (h.records.map .handled ++ later.1), later.2)

/-- What `connect` leaves: its entries, how long the stream was up, why it ended, and
what the notifier remembers. -/
structure Connection where
  entries : List Entry
  uptime : ℕ
  err : StreamError
  last : Notifier.Last

/-- `connect`. -/
def connect (lib : Library) (c : Config) (st : StreamName) (last : Notifier.Last) (reply : Reply) :
    Connection :=
  match lib.parseError (c.streamPath st) with
  | some cause => ⟨[], 0, .request cause, last⟩
  | none =>
    match reply with
    | .failed cause => ⟨[], 0, .connect cause, last⟩
    | .response status chunks readError uptime calls =>
      if status ≠ 200 then ⟨[], 0, .status status, last⟩
      else
        let handled := handleAll lib c st calls 0 last (SSE.connect chunks)
        let err := if (SSE.scan chunks).tooLong then .read (ascii "bufio.Scanner: token too long")
          else match readError with
            | some cause => .read cause
            | none => .eof
        ⟨.connected st :: handled.1, max uptime 1, err, handled.2⟩

/-- The subscriber that `Start` makes; the idle timeout is not set. -/
def Config.subscriber (c : Config) : Stream.Subscriber :=
  Stream.newSubscriber ⟨c.sseReconnectMin, c.sseReconnectMax, 0⟩

/-- The delay before the next connection. `Reconnect` returns one for every draw. -/
def Config.reconnectIn (c : Config) (rand : Backoff.Rand) (attempt : ℕ) : ℤ :=
  (Backoff.reconnect Backoff.wrap rand c.subscriber.reconnectMin c.subscriber.reconnectMax
    attempt).toOption.getD 0

/-- What the goroutines of the streams and the notifier remember: the number of the
attempt of each stream, and the heights last reported. -/
structure Memory where
  attempt : StreamName → ℕ
  last : Notifier.Last

/-- A pass of the loop of a stream: how its connection ends, and the source of the
jitter. -/
structure Pass where
  stream : StreamName
  reply : Reply
  rand : Backoff.Rand

/-- A pass of `streamLoop`. Without a callback token there is no loop for the transaction
events. -/
def streamLoop (lib : Library) (c : Config) (m : Memory) (p : Pass) : List Entry × Memory :=
  if p.stream = .arcadeTx ∧ c.arcadeCallbackToken = [] then ([], m)
  else
    let conn := connect lib c p.stream m.last p.reply
    let attempt := (if c.subscriber.reconnectMax ≤ conn.uptime then 0 else m.attempt p.stream) + 1
    (conn.entries ++ [.disconnected p.stream conn.err (c.reconnectIn p.rand attempt)],
      ⟨fun st => if st = p.stream then attempt else m.attempt st, conn.last⟩)

/-- The passes of the three loops, in the order in which they end. -/
def streamLoops (lib : Library) (c : Config) (m : Memory) : List Pass → List Entry
  | [] => []
  | p :: ps =>
    let done := streamLoop lib c m p
    done.1 ++ streamLoops lib c done.2 ps

/-- The entries of a process, from its startup on. -/
def entries (lib : Library) (c : Config) (s : Startup) (ps : List Pass) : List Entry :=
  let start := startup lib c s
  if start.2 then
    start.1 ++ ((if c.arcadeCallbackToken = [] then [.txStreamDisabled] else []) ++
      streamLoops lib c ⟨fun _ => 0, Bucket.empty⟩ ps)
  else start.1

/-- What is written of an entry: nothing below the level of the logger. -/
def Entry.shown (lib : Library) (c : Config) (e : Entry) : List Record :=
  let r := e.record lib c
  if c.logLevel.rank ≤ r.level.rank then [r] else []

/-- The log of a process. -/
def logs (lib : Library) (c : Config) (s : Startup) (ps : List Pass) : List Record :=
  (entries lib c s ps).flatMap (Entry.shown lib c)

end TxGen.Logs
