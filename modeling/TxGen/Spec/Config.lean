import TxGen.Lib.Duration
import TxGen.Lib.Unmarshal
import TxGen.Spec.Logs
import TxGen.Spec.Script

/-!
# Reading the configuration

`load` of `internal/config`: from the variables of the environment to a `Config`. A reader
parses one variable after the other and collects what it cannot parse, so that all errors
are reported at once. The value of a variable is a list of bytes, valid UTF-8 or not;
`getenv` gives the empty one for those that are not set.
-/

namespace TxGen.Env

open Lib

/-- What a value must be: `one of ..`, `a positive integer` or `a positive duration such as
30s`. -/
inductive Requirement
  | oneOf (allowed : List String)
  | positiveInteger
  | positiveDuration
  deriving DecidableEq, Repr

/-- `invalid configuration value: KEY="raw" must be ..` -/
structure InvalidValue where
  key : String
  raw : Bytes
  must : Requirement
  deriving DecidableEq, Repr

/-- The errors of `load`: those of the variables, or that a token or an id is missing. -/
inductive LoadError
  | invalid (errs : List InvalidValue)
  | adminTokenRequired
  | instanceIDRequired
  deriving DecidableEq, Repr

/-! ## Parsers -/

/-- `strconv.Atoi`. -/
def atoi : Bytes → Option ℤ
  | [] => none
  | b :: s =>
    (if b = 0x2b then (Json.natLiteral s).map Nat.cast else Json.intLiteral (b :: s)).filter
      fun n => -2 ^ 63 ≤ n && n < 2 ^ 63

/-- `unicode.ToLower`, as far as the result is a letter in ASCII: two letters outside it are
capitals of some in it, the dotted I and the sign for Kelvin. -/
def toLower (c : Char) : Char :=
  if 'A' ≤ c ∧ c ≤ 'Z' then Char.ofNat (c.toNat + 32)
  else if c = Char.ofNat 0x130 then 'i'
  else if c = Char.ofNat 0x212a then 'k'
  else c

def parsePositiveInt (raw : Bytes) : Option ℤ := (atoi raw).filter (0 < ·)

def parsePositiveUint64 (raw : Bytes) : Option ℕ := (unsigned 64 raw).filter (0 < ·)

def parsePositiveDuration (raw : Bytes) : Option ℕ :=
  ((Duration.parse raw).filter (0 < ·)).map Int.toNat

/-- The value that stands for a word, whatever its case. `strings.ToLower` goes over the
characters, and puts U+FFFD where none is encoded. -/
def parseWord {α : Type} (words : List (String × α)) (raw : Bytes) : Option α :=
  words.lookup (String.ofList ((Utf8.runes raw).map toLower))

/-! ## The reader -/

/-- The `reader`, with its errors. -/
abbrev Reader := StateM (List InvalidValue)

section

variable (getenv : String → Bytes)

/-- `string`. -/
def string (key : String) (dflt : Bytes) : Bytes :=
  let v := Script.trimSpace (getenv key)
  if v ≠ [] then v else dflt

/-- A variable as `parse` reads it, or `dflt` when it is empty. It is an error when it cannot
be read. -/
def parsed {α : Type} (parse : Bytes → Option α) (must : Requirement) (key : String)
    (dflt : α) : Reader α := fun errs =>
  let raw := string getenv key []
  if raw = [] then (dflt, errs)
  else
    match parse raw with
    | some v => (v, errs)
    | none => (dflt, errs ++ [⟨key, raw, must⟩])

/-- `oneOf`. -/
def oneOf {α : Type} (words : List (String × α)) (key : String) (dflt : α) : Reader α :=
  parsed getenv (parseWord words) (.oneOf (words.map Prod.fst)) key dflt

/-- `positiveInt`. -/
def positiveInt (key : String) (dflt : ℤ) : Reader ℤ :=
  parsed getenv parsePositiveInt .positiveInteger key dflt

/-- `positiveUint64`. -/
def positiveUint64 (key : String) (dflt : ℕ) : Reader ℕ :=
  parsed getenv parsePositiveUint64 .positiveInteger key dflt

/-- `duration`. -/
def duration (key : String) (dflt : ℕ) : Reader ℕ :=
  parsed getenv parsePositiveDuration .positiveDuration key dflt

end

/-! ## The configuration -/

def levels : List (String × Logs.Level) :=
  [("debug", .debug), ("info", .info), ("warn", .warn), ("error", .error)]

def formats : List (String × Logs.Format) := [("json", .json), ("text", .text)]

/-- The default of `SUSTAIN_FEE`, without and with a private key. -/
def defaultSustainFee (privateKey : Bytes) : ℕ := if privateKey ≠ [] then 20 else 7

/-- The variables in the order in which they are read. -/
def read (getenv : String → Bytes) : Reader Logs.Config := do
  let privateKey := string getenv "PRIVATE_KEY" []
  let adminToken := string getenv "ADMIN_TOKEN" []
  let port := string getenv "PORT" (ascii "8080")
  let statePath := string getenv "STATE_PATH" (ascii "./state.db")
  let logLevel ← oneOf getenv levels "LOG_LEVEL" .info
  let logFormat ← oneOf getenv formats "LOG_FORMAT" .json
  let arcadeBaseURL :=
    string getenv "ARCADE_BASE_URL" (ascii "https://arcade-v2-us-1.bsvblockchain.tech")
  let arcadeCallbackToken := string getenv "ARCADE_CALLBACK_TOKEN" []
  let wocBaseURL := string getenv "WOC_BASE_URL" (ascii "https://api.whatsonchain.com/v1/bsv/main")
  let instanceID := string getenv "INSTANCE_ID" []
  let environment := string getenv "ENVIRONMENT" (ascii "production")
  let numChains ← positiveInt getenv "NUM_CHAINS" 10000
  let fanoutSize ← positiveInt getenv "FANOUT_SIZE" 100
  let sustainFee ← positiveUint64 getenv "SUSTAIN_FEE" (defaultSustainFee privateKey)
  let maxTPS ← positiveInt getenv "MAX_TPS" 10000
  let broadcastConcurrency ← positiveInt getenv "BROADCAST_CONCURRENCY" 64
  let broadcastRetryMax ← positiveInt getenv "BROADCAST_RETRY_MAX" 3
  let httpTimeout ← duration getenv "HTTP_TIMEOUT" (30 * 10 ^ 9)
  -- the older name of `SSE_RECONNECT_MIN` is read first
  let sseReconnectInitial ← duration getenv "SSE_RECONNECT_INITIAL" (10 ^ 9)
  let sseReconnectMin ← duration getenv "SSE_RECONNECT_MIN" sseReconnectInitial
  let sseReconnectMax ← duration getenv "SSE_RECONNECT_MAX" (30 * 10 ^ 9)
  let slackWebhookURL := string getenv "SLACK_WEBHOOK_URL" []
  let slackChannel := string getenv "SLACK_CHANNEL" (ascii "#alerts")
  return {
    adminToken, port, statePath, logLevel, logFormat, arcadeBaseURL, arcadeCallbackToken, wocBaseURL,
    privateKey, instanceID, environment, numChains, fanoutSize, sustainFee, maxTPS,
    broadcastConcurrency, broadcastRetryMax, httpTimeout, sseReconnectMin, sseReconnectMax,
    slackWebhookURL, slackChannel }

/-- `load`. -/
def load (getenv : String → Bytes) : Except LoadError Logs.Config :=
  let (c, errs) := (read getenv).run []
  if errs ≠ [] then .error (.invalid errs)
  else if c.adminToken = [] then .error .adminTokenRequired
  else if c.instanceID = [] then .error .instanceIDRequired
  else .ok c

end TxGen.Env
