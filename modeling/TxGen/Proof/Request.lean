import TxGen.Proof.Server

/-!
# A request is applied as a whole or not at all

`handleConfig` validates the request, `ConfigureBootstrap` validates the parameters again
and may refuse them for the state the engine is in, and only then is anything applied: the
parameters, the server's copy, the rate. A handler that is not interrupted by another
therefore applies all of a request or none of it (`config_all_or_nothing`), in whatever
state the engine is.
-/

namespace TxGen

open Lib

variable {Hash : Type} {sdk : SDK Hash}

/-- An authorized request with a decoded body. -/
def configPost (req : ConfigRequest) : Post := ⟨.config, true, true, some req⟩

namespace Service

variable {s : Service Hash} {q : Proc Hash}

/-- A request is served to its end, with no other step in between. -/
def serve (sdk : SDK Hash) (s : Service Hash) (p : Post) : Service Hash :=
  s.steps sdk (.post p :: List.replicate 4 (.handle s.handlers.length))

/-- What handler `i` has answered. -/
def answer (s : Service Hash) (i : ℕ) : Option Response :=
  match s.handlers[i]? with
  | some ⟨_, .done r⟩ => some r
  | _ => none

/-- The service with one more handler. -/
def withHandler (s : Service Hash) (p : Post) (pc : HandlerPc) : Service Hash :=
  { s with handlers := s.handlers ++ [⟨p, pc⟩] }

theorem setPc_withHandler (s : Service Hash) (p : Post) (pc pc' : HandlerPc) :
    (s.withHandler p pc).setPc s.handlers.length ⟨p, pc⟩ pc' = s.withHandler p pc' := by
  simp [setPc, withHandler]

/-- The last handler takes its next step. -/
theorem step_last (hq : s.live.world.proc = some q) (hst : q.main.starting = false) (p : Post)
    (pc : HandlerPc) :
    (s.withHandler p pc).step sdk (.handle s.handlers.length) =
      (s.withHandler p pc).handle sdk q s.handlers.length ⟨p, pc⟩ := by
  have hget : (s.withHandler p pc).handlers[s.handlers.length]? = some ⟨p, pc⟩ := by
    simp [withHandler]
  have hq' : (s.withHandler p pc).live.world.proc = some q := hq
  simp only [step, hq', hget, hst]
  rfl

theorem answer_withHandler (s : Service Hash) (p : Post) (r : Response) :
    (s.withHandler p (.done r)).answer s.handlers.length = some r := by
  simp [answer, withHandler]

/-- A handler that has answered does nothing. -/
theorem run_done (hq : s.live.world.proc = some q) (hst : q.main.starting = false) (p : Post)
    (r : Response) (n : ℕ) :
    Lib.run (step sdk) (s.withHandler p (.done r))
      (List.replicate n (.handle s.handlers.length)) = s.withHandler p (.done r) := by
  induction n with
  | zero => rfl
  | succ n ih =>
    rw [List.replicate_succ, run_cons, step_last hq hst]
    exact ih

end Service

theorem World.setProc_self {w : World Hash} {q : Proc Hash} (hq : w.proc = some q) :
    w.setProc q = w := by
  cases w
  simp only at hq
  rw [World.setProc, hq]

/-- The engine after a request's rate is set, if it has one. -/
def Live.withTPS (sdk : SDK Hash) (l : Live Hash) : Option ℤ → Live Hash
  | none => l
  | some tps => l.step sdk (.setTPS tps)

theorem Live.withTPS_eq (sdk : SDK Hash) {l : Live Hash} {q : Proc Hash} (hq : l.world.proc = some q)
    (hst : q.main.starting = false) (tps : Option ℤ) :
    (l.withTPS sdk tps).world = l.world ∧
      (l.withTPS sdk tps).control.tps = tps.getD l.control.tps ∧
      (l.withTPS sdk tps).control.state.requestedTPS = tps.getD l.control.state.requestedTPS ∧
      (l.withTPS sdk tps).control.state.chainsTarget = l.control.state.chainsTarget ∧
      (tps = none → (l.withTPS sdk tps).control = l.control) := by
  cases tps with
  | none => exact ⟨rfl, rfl, rfl, rfl, fun _ => rfl⟩
  | some tps =>
    have hstep : l.step sdk (.setTPS tps) = { l with control := l.control.setTPS tps } := by
      simp only [Live.step, hq, hst]
      rfl
    rw [Live.withTPS, hstep]
    exact ⟨rfl, rfl, rfl, rfl, fun h => absurd h (by simp)⟩

/-- The engine after `ConfigureBootstrap` has changed the process to `q'`. -/
def Live.configured (l : Live Hash) (q' : Proc Hash) : Live Hash :=
  { l.setState (·.configured q'.numChains) with world := l.world.setProc q' }

/-- `ConfigureBootstrap` on success: the supplied fields are set and the others kept. -/
theorem configureBootstrap_ok {q q' : Proc Hash} {u : BootstrapUpdate}
    (h : q.configureBootstrap u = .ok q') :
    q' = { q with
      numChains := u.numChains.getD q.numChains
      fanoutSize := u.fanoutSize.getD q.fanoutSize
      mode := Proc.updateMode q.mode u.sustainFee } ∧
    (q'.mode.sustainFee : ℕ) = u.sustainFee.getD q.mode.sustainFee := by
  unfold Proc.configureBootstrap at h
  split at h
  · cases h
  rename_i hcheck
  split_ifs at h
  cases h
  refine ⟨rfl, ?_⟩
  cases hfee : u.sustainFee with
  | none => rfl
  | some fee =>
    -- the check has refused a fee of zero
    have hpos : 0 < fee := by
      unfold Proc.checkUpdate at hcheck
      split_ifs at hcheck with h1 h2 h3
      simpa [hfee, Nat.pos_iff_ne_zero] using h3
    simp only [Proc.updateMode, dif_pos hpos]
    rfl

namespace Service

variable {s : Service Hash} {q : Proc Hash}

/-- The end of a handler that has nothing more to check. -/
theorem run_finish (sdk : SDK Hash) (hq : s.live.world.proc = some q) (hst : q.main.starting = false) (p : Post)
    (req : ConfigRequest) (body : ConfigResponse) (n : ℕ) :
    ∃ r, Lib.run (step sdk) (s.withHandler p (.finish req body))
        (List.replicate (n + 1) (.handle s.handlers.length)) =
      withHandler { s with live := s.live.withTPS sdk req.tps } p (.done (.ok r)) := by
  rw [HandlerPc.finish]
  cases htps : req.tps with
  | none => exact ⟨_, run_done hq hst p _ (n + 1)⟩
  | some tps =>
    have hq' : (s.live.step sdk (.setTPS tps)).world.proc = some q := by
      have hworld := (Live.withTPS_eq sdk hq hst (some tps)).1
      rw [Live.withTPS] at hworld
      rw [hworld, hq]
    have hset := setPc_withHandler s p (.setTPS tps { body with tps })
      (.done (.ok { body with tps }))
    refine ⟨{ body with tps }, ?_⟩
    rw [List.replicate_succ, run_cons, step_last hq hst]
    simp only [handle, hset]
    exact run_done (s := { s with live := s.live.step sdk (.setTPS tps) }) hq' hst p _ n

/-- `ConfigureBootstrap` accepts the update. -/
theorem handle_configure (hq : s.live.world.proc = some q) (hst : q.main.starting = false) (p : Post)
    {req : ConfigRequest} {q' : Proc Hash} (hc : q.configureBootstrap req.update = .ok q') :
    (s.withHandler p (.configure req)).handle sdk q s.handlers.length ⟨p, .configure req⟩ =
      withHandler { s with
        live := s.live.configured q'
        accepted := s.accepted ++ [q'.config] } p (.copy req q'.config) := by
  have hlive : s.live.step sdk (.world (.configure req.update)) =
      s.live.configured q' := by
    simp only [Live.step, Live.worldStep, hq, hst, hc]
    rfl
  simp only [handle, hc, setPc_withHandler]
  rw [show (s.withHandler p (.configure req)).live = s.live from rfl, hlive]
  rfl

/-- The accepted configuration goes to the server's copy. -/
theorem handle_copy (s : Service Hash) (q : Proc Hash) (p : Post) (req : ConfigRequest)
    (cfg : BootstrapConfig) :
    (s.withHandler p (.copy req cfg)).handle sdk q s.handlers.length ⟨p, .copy req cfg⟩ =
      withHandler { s with
        cfg := ⟨cfg.numChains, cfg.fanoutSize, cfg.sustainFee, s.cfg.maxTPS⟩ } p
        (.finish req ⟨some cfg.numChains, some cfg.fanoutSize, some cfg.sustainFee, none⟩) := by
  simp only [handle, setPc_withHandler]
  rfl

/-- The service after a request has been received. -/
theorem serve_eq (hq : s.live.world.proc = some q) (hst : q.main.starting = false)
    (req : ConfigRequest) : s.serve sdk (configPost req) =
      Lib.run (step sdk) (s.withHandler (configPost req) (s.cfg.receive (configPost req)))
        (List.replicate 3 (.handle s.handlers.length)) := by
  have hpost : s.step sdk (.post (configPost req)) = s.withHandler (configPost req) .received := by
    simp only [step, hq, hst]
    rfl
  rw [serve, steps, run_cons, hpost, List.replicate_succ, run_cons, step_last hq hst]
  simp only [handle, setPc_withHandler]
  rfl

/-- An invalid request is refused. -/
theorem serve_invalid (hq : s.live.world.proc = some q) (hst : q.main.starting = false)
    {req : ConfigRequest} {msg : String} (h : s.cfg.validate req = some msg) :
    s.serve sdk (configPost req) = s.withHandler (configPost req) (.done (.error 400 msg)) := by
  have hrecv : s.cfg.receive (configPost req) = .done (.error 400 msg) := by
    simp [ServerConfig.receive, Post.prepare, configPost, h]
  rw [serve_eq hq hst, hrecv, run_done hq hst]

/-- One without bootstrap parameters sets the rate. -/
theorem serve_rate (sdk : SDK Hash) (hq : s.live.world.proc = some q) (hst : q.main.starting = false)
    {req : ConfigRequest} (h : s.cfg.validate req = none) (hup : req.hasUpdate = false) :
    ∃ r, s.serve sdk (configPost req) =
      withHandler { s with live := s.live.withTPS sdk req.tps } (configPost req) (.done (.ok r)) := by
  have hrecv : s.cfg.receive (configPost req) = .finish req ⟨none, none, none, none⟩ := by
    simp [ServerConfig.receive, Post.prepare, configPost, h, hup]
  rw [serve_eq hq hst, hrecv]
  exact run_finish sdk hq hst _ req _ 2

/-- Parameters the engine refuses. -/
theorem serve_refused (hq : s.live.world.proc = some q) (hst : q.main.starting = false)
    {req : ConfigRequest} (h : s.cfg.validate req = none) (hup : req.hasUpdate = true)
    {e : ConfigureError} (hc : q.configureBootstrap req.update = .error e) :
    s.serve sdk (configPost req) =
      s.withHandler (configPost req) (.done (.error 409 e.message)) := by
  have hrecv : s.cfg.receive (configPost req) = .configure req := by
    simp [ServerConfig.receive, Post.prepare, configPost, h, hup]
  rw [serve_eq hq hst, hrecv, List.replicate_succ, run_cons, step_last hq hst]
  simp only [handle, hc, setPc_withHandler]
  exact run_done hq hst _ _ 2

/-- Parameters it accepts are copied, and then the rate is set. -/
theorem serve_configured (sdk : SDK Hash) (hq : s.live.world.proc = some q) (hst : q.main.starting = false)
    {req : ConfigRequest} (h : s.cfg.validate req = none) (hup : req.hasUpdate = true)
    {q' : Proc Hash} (hc : q.configureBootstrap req.update = .ok q') :
    ∃ r accepted, s.serve sdk (configPost req) =
      withHandler { s with
        live := (s.live.configured q').withTPS sdk req.tps
        cfg := ⟨q'.numChains, q'.fanoutSize, q'.mode.sustainFee, s.cfg.maxTPS⟩
        accepted := accepted } (configPost req) (.done (.ok r)) := by
  have hrecv : s.cfg.receive (configPost req) = .configure req := by
    simp [ServerConfig.receive, Post.prepare, configPost, h, hup]
  have hst' : q'.main.starting = false := by
    rw [(configureBootstrap_ok hc).1]
    exact hst
  rw [serve_eq hq hst, hrecv, List.replicate_succ, run_cons, step_last hq hst,
    handle_configure hq hst _ hc, List.replicate_succ, run_cons]
  -- the service as `ConfigureBootstrap` leaves it
  generalize hs₁ : ({ s with
    live := s.live.configured q'
    accepted := s.accepted ++ [q'.config] } : Service Hash) = s₁
  have hq₁ : s₁.live.world.proc = some q' := by rw [← hs₁]; rfl
  have hlen : s.handlers.length = s₁.handlers.length := by rw [← hs₁]
  rw [hlen, step_last hq₁ hst', handle_copy]
  obtain ⟨r, hr⟩ := run_finish sdk (s := { s₁ with
    cfg := ⟨q'.config.numChains, q'.config.fanoutSize, q'.config.sustainFee, s₁.cfg.maxTPS⟩ }) hq₁ hst' (configPost req) req _ 0
  refine ⟨r, s.accepted ++ [q'.config], hr.trans ?_⟩
  rw [← hs₁]
  rfl

/-- The supplied fields of a request are in effect, and everything else is as before. -/
structure Applied (req : ConfigRequest) (s s' : Service Hash) (q q' : Proc Hash) : Prop where
  proc : q' = { q with
    numChains := req.numChains.getD q.numChains
    fanoutSize := req.fanoutSize.getD q.fanoutSize
    mode := Proc.updateMode q.mode req.sustainFee }
  fee : (q'.mode.sustainFee : ℕ) = req.sustainFee.getD q.mode.sustainFee
  world : s'.live.world = s.live.world.setProc q'
  tps : s'.live.control.tps = req.tps.getD s.live.control.tps
  requestedTPS : s'.live.control.state.requestedTPS =
    req.tps.getD s.live.control.state.requestedTPS
  chainsTarget : s'.live.control.state.chainsTarget =
    if req.hasUpdate then q'.numChains else s.live.control.state.chainsTarget
  lifecycle : req.tps = none →
    s'.live.control.state.lifecycle = s.live.control.state.lifecycle
  cfg : s'.cfg = if req.hasUpdate then
    ⟨q'.numChains, q'.fanoutSize, q'.mode.sustainFee, s.cfg.maxTPS⟩ else s.cfg

/-- A request with parameters. -/
theorem Applied.configured (hst : q.main.starting = false) {req : ConfigRequest} {q' : Proc Hash}
    (hup : req.hasUpdate = true) (hc : q.configureBootstrap req.update = .ok q') {p : Post}
    {pc : HandlerPc} {accepted : List BootstrapConfig} :
    Applied req s (withHandler { s with
      live := (s.live.configured q').withTPS sdk req.tps
      cfg := ⟨q'.numChains, q'.fanoutSize, q'.mode.sustainFee, s.cfg.maxTPS⟩
      accepted := accepted } p pc) q q' := by
  obtain ⟨hq', hfee⟩ := configureBootstrap_ok hc
  have hst' : q'.main.starting = false := by
    rw [hq']
    exact hst
  have hproc : (s.live.configured q').world.proc = some q' := rfl
  obtain ⟨hworld, htps, hreq, htarget, hsame⟩ := Live.withTPS_eq sdk hproc hst' req.tps
  refine ⟨hq', hfee, hworld, htps, hreq, ?_, fun h => ?_, ?_⟩
  · rw [hup]
    exact htarget
  · exact congrArg (fun c => c.state.lifecycle) (hsame h)
  · rw [hup]
    rfl

/-- A request without parameters. -/
theorem Applied.rate (hq : s.live.world.proc = some q) (hst : q.main.starting = false)
    {req : ConfigRequest} (hup : req.hasUpdate = false) {p : Post} {pc : HandlerPc} :
    Applied req s (withHandler { s with live := s.live.withTPS sdk req.tps } p pc) q q := by
  have hnone : req.numChains = none ∧ req.fanoutSize = none ∧ req.sustainFee = none := by
    simpa [ConfigRequest.hasUpdate, and_assoc] using hup
  obtain ⟨hworld, htps, hreq, htarget, hsame⟩ := Live.withTPS_eq sdk hq hst req.tps
  refine ⟨?_, ?_, ?_, htps, hreq, ?_, fun h => ?_, ?_⟩
  · rw [hnone.1, hnone.2.1, hnone.2.2]
    rfl
  · rw [hnone.2.2]
    rfl
  · exact hworld.trans (World.setProc_self hq).symm
  · rw [hup]
    exact htarget
  · exact congrArg (fun c => c.state.lifecycle) (hsame h)
  · rw [hup]
    rfl

end Service

/-- **`POST /config` is all-or-nothing.** A decoded request is answered with 200, and its
fields are in effect and the others unchanged, or with 400 or 409, and nothing has
changed: not the rate, the lifecycle, the parameters, the mode or the target of the
engine, nor the server's copy. -/
theorem config_all_or_nothing (sdk : SDK Hash) {s : Service Hash} {q : Proc Hash}
    (hq : s.live.world.proc = some q) (hst : q.main.starting = false) (req : ConfigRequest) :
    (∃ body q', (s.serve sdk (configPost req)).answer s.handlers.length = some (.ok body) ∧
        (s.serve sdk (configPost req)).live.world.proc = some q' ∧
        Service.Applied req s (s.serve sdk (configPost req)) q q') ∨
      ∃ status msg, (status = 400 ∨ status = 409) ∧
        (s.serve sdk (configPost req)).answer s.handlers.length = some (.error status msg) ∧
        (s.serve sdk (configPost req)).live = s.live ∧
        (s.serve sdk (configPost req)).cfg = s.cfg := by
  cases hvalid : s.cfg.validate req with
  | some msg =>
    rw [Service.serve_invalid hq hst hvalid]
    exact Or.inr ⟨400, msg, Or.inl rfl, s.answer_withHandler _ _, rfl, rfl⟩
  | none =>
    cases hup : req.hasUpdate with
    | false =>
      obtain ⟨r, hr⟩ := Service.serve_rate sdk hq hst hvalid hup
      rw [hr]
      exact Or.inl ⟨r, q, Service.answer_withHandler _ _ _, (congrArg World.proc
        (Live.withTPS_eq sdk hq hst req.tps).1).trans hq, .rate hq hst hup⟩
    | true =>
      cases hc : q.configureBootstrap req.update with
      | error e =>
        rw [Service.serve_refused hq hst hvalid hup hc]
        exact Or.inr ⟨409, e.message, Or.inr rfl, s.answer_withHandler _ _, rfl, rfl⟩
      | ok q' =>
        obtain ⟨r, accepted, hr⟩ := Service.serve_configured sdk hq hst hvalid hup hc
        have hst' : q'.main.starting = false := by
          rw [(configureBootstrap_ok hc).1]
          exact hst
        rw [hr]
        exact Or.inl ⟨r, q', Service.answer_withHandler _ _ _, congrArg World.proc
          (Live.withTPS_eq sdk (l := s.live.configured q') rfl hst' req.tps).1, .configured hst hup hc⟩

namespace Concrete

/-- An engine that waits for its funding, behind its API. -/
def waiting : Service Bytes :=
  (Service.init Store.empty).steps plainSDK
    (.start (options 2 2 1) [] 100 :: (mains 3).map .engine)

end Concrete

/-- A request for three chains at seven transactions per second reaches it. -/
theorem config_applied_waiting :
    ∃ q', (Concrete.waiting.serve Concrete.plainSDK
        (configPost ⟨some 7, some 3, none, none⟩)).live.world.proc = some q' ∧
      q'.numChains = 3 ∧ q'.fanoutSize = 1 ∧
      (Concrete.waiting.serve Concrete.plainSDK
        (configPost ⟨some 7, some 3, none, none⟩)).live.control.tps = 7 := by
  have hrun : Concrete.waiting.live.world.proc.map (fun q => (q.main.starting, q.fanoutSize)) =
      some (false, 1) := by
    decide +kernel
  obtain ⟨q, hq, hpair⟩ := Option.map_eq_some_iff.1 hrun
  obtain ⟨hst, hfan⟩ := Prod.mk.inj hpair
  rcases config_all_or_nothing Concrete.plainSDK hq hst ⟨some 7, some 3, none, none⟩ with
    ⟨body, q', -, hq', happ⟩ | ⟨status, msg, -, hanswer, -⟩
  · exact ⟨q', hq', by rw [happ.proc]; rfl, by rw [happ.proc]; exact hfan, happ.tps⟩
  · have hok : (Concrete.waiting.serve Concrete.plainSDK (configPost ⟨some 7, some 3, none, none⟩)).answer
        Concrete.waiting.handlers.length = some (.ok ⟨some 3, some 1, some 2, some 7⟩) := by
      decide +kernel
    rw [hok] at hanswer
    cases hanswer

end TxGen
