import TxGen.Spec.Live

/-!
# The admin API

`internal/server/server.go`: the handlers of `POST /config` and `POST /stop` over a running
engine. A handler takes one step for each lock it acquires: it validates the request
against the server's configuration, calls `ConfigureBootstrap`, writes the configuration
it got to the server's copy, and calls `SetTPS`. Any number of handlers take their steps
in any order, between the steps of the engine.

How a request is authenticated and decoded is taken as given (`Post`). The read-only
endpoints and the log are left out; `GET /status` shows `Service.cfg`.
-/

namespace TxGen

/-- A decoded body of `POST /config`; every field is optional. -/
structure ConfigRequest where
  tps : Option ℤ
  numChains : Option ℤ
  fanoutSize : Option ℤ
  sustainFee : Option ℕ
  deriving DecidableEq, Repr

/-- The fields of the server's configuration that the handlers use. -/
structure ServerConfig where
  numChains : ℤ
  fanoutSize : ℤ
  sustainFee : ℕ
  maxTPS : ℤ
  deriving DecidableEq, Repr

/-- The body of a successful answer: the fields that were set. -/
structure ConfigResponse where
  numChains : Option ℤ
  fanoutSize : Option ℤ
  sustainFee : Option ℕ
  tps : Option ℤ
  deriving DecidableEq, Repr

/-- An answer: a status and a message, or 200 with a body. -/
inductive Response
  | error (status : ℕ) (msg : String)
  | ok (body : ConfigResponse)
  deriving DecidableEq, Repr

/-- The admin endpoints. -/
inductive Route
  | config
  | stop
  deriving DecidableEq, Repr

/-- A request: whether its token is the admin token and its content type JSON, and its
body, if it decodes. -/
structure Post where
  route : Route
  authorized : Bool
  jsonType : Bool
  body : Option ConfigRequest
  deriving DecidableEq, Repr

/-- The default of `MAX_TPS`. -/
def defaultMaxTPS : ℤ := 10000

/-- `prepareAuthenticatedPost`: the error it answers with. -/
def Post.prepare (p : Post) : Option Response :=
  if p.authorized = false then some (.error 401 "unauthorized")
  else if p.jsonType = false then some (.error 415 "content-type must be application/json")
  else none

/-- `validate`: the client error of a request. -/
def ServerConfig.validate (c : ServerConfig) (req : ConfigRequest) : Option String :=
  let maxTPS := positiveOr c.maxTPS defaultMaxTPS
  if req.tps = none ∧ req.numChains = none ∧ req.fanoutSize = none ∧ req.sustainFee = none then
    some "no config fields supplied"
  else if req.tps.any fun tps => tps < 0 ∨ maxTPS < tps then
    some ("tps must be 0-" ++ toString maxTPS)
  else if req.numChains.any (· ≤ 0) then some "numChains must be positive"
  else if req.fanoutSize.any (· ≤ 0) then some "fanoutSize must be positive"
  else if req.sustainFee.any (· = 0) then some "sustainFee must be positive"
  else none

/-- The text of an error of `ConfigureBootstrap`. -/
def ConfigureError.message : ConfigureError → String
  | .invalid msg => "invalid bootstrap parameter: " ++ msg
  | .bootstrapLocked =>
    "bootstrap parameters can only be changed before initial funding is detected"

namespace ConfigRequest

variable (req : ConfigRequest)

/-- The request changes bootstrap parameters. -/
def hasUpdate : Bool :=
  req.numChains.isSome || req.fanoutSize.isSome || req.sustainFee.isSome

/-- The update it asks for. -/
def update : BootstrapUpdate := ⟨req.numChains, req.fanoutSize, req.sustainFee⟩

end ConfigRequest

/-- Where a handler stands.

* `received`: before its first step
* `configure`: the request is valid, `ConfigureBootstrap` not yet called
* `copy`: `ConfigureBootstrap` has returned `cfg`, not yet in the server's copy
* `setTPS`: `SetTPS` not yet called
* `done`: it has answered -/
inductive HandlerPc
  | received
  | configure (req : ConfigRequest)
  | copy (req : ConfigRequest) (cfg : BootstrapConfig)
  | setTPS (tps : ℤ) (body : ConfigResponse)
  | done (r : Response)
  deriving DecidableEq, Repr

/-- The handler has answered. -/
def HandlerPc.isDone : HandlerPc → Bool
  | .done _ => true
  | _ => false

/-- A request and the handler that serves it. -/
structure Handler where
  post : Post
  pc : HandlerPc
  deriving DecidableEq, Repr

/-- The last part of `handleConfig`: the rate, if it is set, and the answer. -/
def HandlerPc.finish (req : ConfigRequest) (body : ConfigResponse) : HandlerPc :=
  match req.tps with
  | some tps => .setTPS tps { body with tps }
  | none => .done (.ok body)

/-- The first step of a handler, up to the first call of the engine. -/
def ServerConfig.receive (c : ServerConfig) (p : Post) : HandlerPc :=
  match p.prepare with
  | some r => .done r
  | none =>
    match p.route with
    | .stop => .setTPS 0 ⟨none, none, none, some 0⟩
    | .config =>
      match p.body with
      | none => .done (.error 400 "invalid JSON")
      | some req =>
        match c.validate req with
        | some msg => .done (.error 400 msg)
        | none =>
          if req.hasUpdate then .configure req else HandlerPc.finish req ⟨none, none, none, none⟩

/-- A running engine behind its API: the server's configuration, the handlers, and, for
the running process, the configurations that `ConfigureBootstrap` has returned. -/
structure Service (Hash : Type) where
  live : Live Hash
  cfg : ServerConfig
  handlers : List Handler
  accepted : List BootstrapConfig

/-- A process starts with a configuration, the engine takes a step, a request arrives, or
a handler takes its next step. -/
inductive ServiceEvent (Hash : Type)
  | start (o : Options Hash) (initial : List UTXO) (maxTPS : ℤ)
  | engine (e : Event Hash)
  | post (p : Post)
  | handle (i : ℕ)

variable {Hash : Type} (sdk : SDK Hash)

namespace Service

variable (s : Service Hash)

/-- Handler `i` goes on at `pc`. -/
def setPc (i : ℕ) (h : Handler) (pc : HandlerPc) : Service Hash :=
  { s with handlers := s.handlers.set i { h with pc } }

/-- The next step of handler `h`, over the engine's process `q`. -/
def handle (q : Proc Hash) (i : ℕ) (h : Handler) : Service Hash :=
  match h.pc with
  | .received => s.setPc i h (s.cfg.receive h.post)
  | .configure req =>
    match q.configureBootstrap req.update with
    | .error e => s.setPc i h (.done (.error 409 e.message))
    | .ok q' =>
      { s.setPc i h (.copy req q'.config) with
        live := s.live.step sdk (.world (.configure req.update))
        accepted := s.accepted ++ [q'.config] }
  | .copy req cfg =>
    { s.setPc i h (.finish req ⟨some cfg.numChains, some cfg.fanoutSize, some cfg.sustainFee, none⟩)
      with
      cfg := ⟨cfg.numChains, cfg.fanoutSize, cfg.sustainFee, s.cfg.maxTPS⟩ }
  | .setTPS tps body =>
    { s.setPc i h (.done (.ok body)) with live := s.live.step sdk (.setTPS tps) }
  | .done _ => s

/-- Without a process there is no server. -/
def reap : Service Hash :=
  match s.live.world.proc with
  | none => { s with handlers := [], accepted := [] }
  | some _ => s

/-- One event. The server serves once `New` has returned; the engine is configured by
handlers only. -/
def step (s : Service Hash) : ServiceEvent Hash → Service Hash
  | .start o initial maxTPS =>
    match s.live.world.proc with
    | none =>
      reap { s with
        live := s.live.step sdk (.world (.start o initial))
        cfg := ⟨o.numChains, o.fanoutSize, o.mode.sustainFee, maxTPS⟩ }
    | some _ => s
  | .engine e =>
    match e with
    | .start .. | .configure _ => s
    | _ => reap { s with live := s.live.step sdk (.world e) }
  | .post p =>
    match s.live.world.proc with
    | none => s
    | some q => if q.main.starting then s else { s with handlers := s.handlers ++ [⟨p, .received⟩] }
  | .handle i =>
    match s.live.world.proc, s.handlers[i]? with
    | some q, some h => if q.main.starting then s else s.handle sdk q i h
    | _, _ => s

/-- A state file without a process. -/
def init (st : Store Hash) : Service Hash := ⟨Live.init st, ⟨0, 0, 0, 0⟩, [], []⟩

/-- The state after a list of events. -/
def steps (s : Service Hash) (es : List (ServiceEvent Hash)) : Service Hash :=
  Lib.run (step sdk) s es

/-- No request is in progress. -/
def idle : Bool := s.handlers.all (·.pc.isDone)

/-- The bootstrap parameters in the server's copy. -/
def reported : BootstrapConfig := ⟨s.cfg.numChains, s.cfg.fanoutSize, s.cfg.sustainFee⟩

end Service

end TxGen
