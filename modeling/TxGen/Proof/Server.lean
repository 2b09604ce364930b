import TxGen.Lib.Mirror
import TxGen.Proof.Frozen
import TxGen.Spec.Server

/-!
# The reported configuration

`POST /config` changes the engine's parameters under the engine's lock and the server's
copy of them later, under the server's. The two are a value and its copy in the sense of
`TxGen.Lib.Mirror`, so between requests the copy is the engine's configuration exactly
when the last copy was current (`reported_config_iff`): no update accepted after that of
the handler that copied has changed the parameters. That is so whenever the handler whose
update is accepted last copies last.

`ConfigEffect` says once what a step does to the engine's configuration, the copy, and
what the handlers have still to copy.
-/

namespace TxGen

open Lib

variable {Hash : Type} {sdk : SDK Hash}

/-- The configuration a handler has still to write to the server's copy. -/
def HandlerPc.held : HandlerPc → Option BootstrapConfig
  | .copy _ cfg => some cfg
  | _ => none

theorem HandlerPc.held_finish (req : ConfigRequest) (body : ConfigResponse) :
    (HandlerPc.finish req body).held = none := by
  unfold HandlerPc.finish
  cases req.tps <;> rfl

/-- The first step of a handler leads to no copy. -/
theorem ServerConfig.held_receive (c : ServerConfig) (p : Post) : (c.receive p).held = none := by
  unfold ServerConfig.receive
  split
  · rfl
  · split
    · rfl
    · split
      · rfl
      · split
        · rfl
        · split_ifs
          · rfl
          · exact HandlerPc.held_finish _ _

namespace Service

variable (s : Service Hash)

/-- The engine's configuration. -/
def config : Option BootstrapConfig := s.live.world.proc.map Proc.config

/-- What handler `i` has still to write to the server's copy. -/
def held (i : ℕ) : Option BootstrapConfig := s.handlers[i]?.bind (·.pc.held)

/-- The handler that takes its next step, if the server serves. -/
def serving : ServiceEvent Hash → Option (Proc Hash × ℕ × Handler)
  | .handle i =>
    match s.live.world.proc, s.handlers[i]? with
    | some q, some h => if q.main.starting then none else some (q, i, h)
    | _, _ => none
  | _ => none

/-- The handler that writes the server's copy in this step, with what it writes. -/
def copying (e : ServiceEvent Hash) : Option (ℕ × BootstrapConfig) :=
  (s.serving e).bind fun (_, i, h) => h.pc.held.map fun cfg => (i, cfg)

/-- The configuration the step writes to the server's copy. -/
def copies (e : ServiceEvent Hash) : Option BootstrapConfig := (s.copying e).map Prod.snd

/-- The handler that copies in this step. -/
def copier (e : ServiceEvent Hash) : Option ℕ := (s.copying e).map Prod.fst

/-- The handler whose update `ConfigureBootstrap` accepts in this step. -/
def configurer (e : ServiceEvent Hash) : Option ℕ :=
  (s.serving e).bind fun (q, i, h) =>
    match h.pc with
    | .configure req =>
      match q.configureBootstrap req.update with
      | .ok _ => some i
      | .error _ => none
    | _ => none

/-- What the step copies, if anything, is what the engine has: since the handler called
`ConfigureBootstrap`, no other update has changed the parameters. -/
def Current (s : Service Hash) (e : ServiceEvent Hash) : Prop :=
  ∀ cfg ∈ s.copies e, some cfg = s.config

end Service

/-- What a step does to the engine's configuration and the server's copy. -/
inductive ConfigEffect (s s' : Service Hash) (e : ServiceEvent Hash) : Prop
  | stay (hcopy : s.copying e = none) (hconf : s.configurer e = none) (hconfig : s'.config = s.config)
      (hreported : s'.reported = s.reported) (hacc : s'.accepted = s.accepted)
      (hheld : s'.held = s.held)
  /-- the process has ended, or another one starts -/
  | reset (hcopy : s.copying e = none) (hconf : s.configurer e = none) (hacc : s'.accepted = [])
      (hheld : ∀ i, s'.held i = none)
  | configure (i : ℕ) (cfg : BootstrapConfig) (hcopy : s.copying e = none)
      (hconf : s.configurer e = some i) (hconfig : s'.config = some cfg)
      (hheld : s'.held = Function.update s.held i (some cfg))
  | copy (i : ℕ) (cfg : BootstrapConfig) (hcopy : s.copying e = some (i, cfg))
      (hconf : s.configurer e = none) (hconfig : s'.config = s.config)
      (hreported : s'.reported = cfg) (hacc : s'.accepted = s.accepted) (hi : s.held i = some cfg)
      (hheld : s'.held = Function.update s.held i none)

namespace Service

variable {s : Service Hash} {q q' : Proc Hash} {i : ℕ} {h : Handler}

theorem held_setPc (hi : s.handlers[i]? = some h) (pc : HandlerPc) :
    (s.setPc i h pc).held = Function.update s.held i pc.held := by
  funext j
  obtain ⟨hlt, -⟩ := List.getElem?_eq_some_iff.1 hi
  by_cases hj : j = i
  · subst hj
    simp [held, setPc, hlt]
  · rw [Function.update_of_ne hj]
    simp [held, setPc, List.getElem?_set_ne (Ne.symm hj)]

/-- A handler that neither has nor gets anything to copy. -/
theorem held_setPc_none (hi : s.handlers[i]? = some h) {pc : HandlerPc} (hpc : h.pc.held = none)
    (hpc' : pc.held = none) : (s.setPc i h pc).held = s.held := by
  have hheld : s.held i = none := by
    rw [held, hi]
    exact hpc
  rw [held_setPc hi, hpc', ← hheld, Function.update_eq_self]

/-- **A step of a handler.** -/
theorem handle_effect (sdk : SDK Hash) (hq : s.live.world.proc = some q) (hst : q.main.starting = false)
    (hi : s.handlers[i]? = some h) : ConfigEffect s (s.handle sdk q i h) (.handle i) := by
  have hserving : s.serving (.handle i) = some (q, i, h) := by
    simp only [serving, hq, hi, hst]
    rfl
  have hcopying : s.copying (.handle i) = h.pc.held.map fun cfg => (i, cfg) := by
    rw [copying, hserving]
    rfl
  have hnone : h.pc.held = none → s.copying (.handle i) = none := by
    intro hpc
    rw [hcopying, hpc]
    rfl
  unfold handle
  -- only the call of `ConfigureBootstrap` and the copy of its result have an effect
  split
  · rename_i hpc
    have hheld : h.pc.held = none := by rw [hpc]; rfl
    exact .stay (hnone hheld) (by simp [configurer, hserving, hpc]) rfl rfl rfl
      (held_setPc_none hi hheld (s.cfg.held_receive h.post))
  · rename_i req hpc
    have hheld : h.pc.held = none := by rw [hpc]; rfl
    split
    · rename_i e hc
      exact .stay (hnone hheld) (by simp [configurer, hserving, hpc, hc]) rfl rfl rfl
        (held_setPc_none hi hheld rfl)
    · rename_i q' hc
      refine .configure i q'.config (hnone hheld) (by simp [configurer, hserving, hpc, hc]) ?_
        (held_setPc hi (.copy req q'.config))
      have hlive : (s.live.step sdk (.world (.configure req.update))).world.proc = some q' := by
        simp only [Live.step, Live.worldStep, hq, hst, hc]
        rfl
      exact congrArg (Option.map Proc.config) hlive
  · rename_i req cfg hpc
    refine .copy i cfg (by rw [hcopying, hpc]; rfl) (by simp [configurer, hserving, hpc]) rfl rfl rfl
      (by rw [held, hi]; exact congrArg HandlerPc.held hpc) ?_
    have hset := held_setPc hi (.finish req
      ⟨some cfg.numChains, some cfg.fanoutSize, some cfg.sustainFee, none⟩)
    rw [HandlerPc.held_finish] at hset
    exact hset
  · rename_i tps body hpc
    have hheld : h.pc.held = none := by rw [hpc]; rfl
    refine .stay (hnone hheld) (by simp [configurer, hserving, hpc]) ?_ rfl rfl
      (held_setPc_none hi hheld rfl)
    have hlive : (s.live.step sdk (.setTPS tps)).world.proc = some q := by
      simp only [Live.step, hq, hst]
      exact hq
    rw [config, config, hq]
    exact congrArg (Option.map Proc.config) hlive
  · rename_i r hpc
    exact .stay (hnone (by rw [hpc]; rfl)) (by simp [configurer, hserving, hpc]) rfl rfl rfl rfl

/-- Without a process there is nothing of a server. -/
def Gone (s : Service Hash) : Prop :=
  s.live.world.proc = none → s.handlers = [] ∧ s.accepted = []

theorem gone_reap (s : Service Hash) : s.reap.Gone := by
  unfold reap
  split
  · exact fun _ => ⟨rfl, rfl⟩
  · rename_i q hq
    intro hnone
    rw [hq] at hnone
    cases hnone

/-- A step of the engine other than a call of `ConfigureBootstrap`. -/
theorem engine_effect (sdk : SDK Hash) (s : Service Hash) {e : Event Hash}
    (hs : ∀ o initial, e ≠ .start o initial) (hc : ∀ u, e ≠ .configure u) :
    ConfigEffect s (Service.reap { s with live := s.live.step sdk (.world e) }) (.engine e) := by
  cases hq' : (s.live.step sdk (.world e)).world.proc with
  | none =>
    simp only [reap, hq']
    exact .reset rfl rfl rfl fun i => rfl
  | some q' =>
    -- the engine changes its own parameters at no other call
    have hstep : ∃ q, s.live.world.proc = some q ∧ q'.config = q.config := by
      rcases live_world sdk s.live (.world e) with hw | ⟨d, hw, hd⟩
      · rw [hw] at hq'
        exact ⟨q', hq', rfl⟩
      · cases hd
        rw [hw] at hq'
        cases hq : s.live.world.proc with
        | none =>
          rw [step_none hq hs, hq] at hq'
          cases hq'
        | some q =>
          rcases step_params hq hq' with hp | ⟨u, hu, -⟩
          · exact ⟨q, rfl, hp.config_eq⟩
          · exact absurd hu (hc u)
    obtain ⟨q, hq, hcfg⟩ := hstep
    simp only [reap, hq']
    refine .stay rfl rfl ?_ rfl rfl rfl
    rw [config, config, hq, Option.map_some, ← hcfg]
    exact congrArg (Option.map Proc.config) hq'

theorem held_post (s : Service Hash) (p : Post) :
    held { s with handlers := s.handlers ++ [⟨p, .received⟩] } = s.held := by
  funext i
  rcases Nat.lt_trichotomy i s.handlers.length with hlt | heq | hgt
  · simp [held, List.getElem?_append_left hlt]
  · subst heq
    simp [held, HandlerPc.held]
  · rw [held, held, List.getElem?_eq_none (by simp; omega), List.getElem?_eq_none (by omega)]

/-- **One event.** -/
theorem step_effect (sdk : SDK Hash) (hgone : s.Gone) (e : ServiceEvent Hash) :
    ConfigEffect s (s.step sdk e) e := by
  cases e with
  | start o initial maxTPS =>
    rw [step]
    split
    · rename_i hnone
      obtain ⟨hh, ha⟩ := hgone hnone
      have hheld : ∀ i, s.held i = none := by
        intro i
        rw [held, hh]
        rfl
      unfold reap
      split
      · exact .reset rfl rfl rfl fun i => rfl
      · exact .reset rfl rfl ha hheld
    · exact .stay rfl rfl rfl rfl rfl rfl
  | engine e =>
    cases e with
    | start | configure => exact .stay rfl rfl rfl rfl rfl rfl
    | crash | cancel | poll | main | task => exact engine_effect sdk s (by simp) (by simp)
  | post p =>
    rw [step]
    split
    · exact .stay rfl rfl rfl rfl rfl rfl
    · split_ifs
      · exact .stay rfl rfl rfl rfl rfl rfl
      · exact .stay rfl rfl rfl rfl rfl (held_post s p)
  | handle i =>
    rw [step]
    split
    · rename_i q h hq hi
      split_ifs with hst
      · have hserving : s.serving (.handle i) = none := by
          simp only [serving, hq, hi, hst]
          rfl
        exact .stay (by rw [copying, hserving]; rfl) (by rw [configurer, hserving]; rfl) rfl rfl rfl rfl
      · exact handle_effect sdk hq (by simpa using hst) hi
    · rename_i hno
      have hserving : s.serving (.handle i) = none := by
        rw [serving]
        split
        · rename_i q h hq hi
          exact absurd hi (hno q h hq)
        · rfl
      exact .stay (by rw [copying, hserving]; rfl) (by rw [configurer, hserving]; rfl) rfl rfl rfl rfl

/-- A handler's step does not end the process. -/
theorem handle_proc (sdk : SDK Hash) (hq : s.live.world.proc = some q) (hst : q.main.starting = false)
    (i : ℕ) (h : Handler) : (s.handle sdk q i h).live.world.proc ≠ none := by
  have hsome : s.live.world.proc ≠ none := by
    rw [hq]
    simp
  unfold handle
  split
  · exact hsome
  · rename_i req hpc
    split
    · exact hsome
    · rename_i q' hc
      have hlive : (s.live.step sdk (.world (.configure req.update))).world.proc = some q' := by
        simp only [Live.step, Live.worldStep, hq, hst, hc]
        rfl
      exact ne_of_eq_of_ne hlive (by simp)
  · exact hsome
  · simp only [Live.step, hq, hst]
    exact hsome
  · exact hsome

theorem Gone.step (hs : s.Gone) (e : ServiceEvent Hash) : (s.step sdk e).Gone := by
  cases e with
  | start o initial maxTPS =>
    rw [Service.step]
    split
    · exact gone_reap _
    · exact hs
  | engine e =>
    cases e with
    | start | configure => exact hs
    | crash | cancel | poll | main | task => exact gone_reap _
  | post p =>
    rw [Service.step]
    split
    · exact hs
    · rename_i q hq
      split_ifs
      · exact hs
      · intro hnone
        have hnone' : s.live.world.proc = none := hnone
        rw [hq] at hnone'
        cases hnone'
  | handle i =>
    rw [Service.step]
    split
    · rename_i q h hq hi
      split_ifs with hst
      · exact hs
      · exact fun hnone => absurd hnone (handle_proc sdk hq (by simpa using hst) i h)
    · exact hs

theorem gone_steps (sdk : SDK Hash) (st : Store Hash) (es : List (ServiceEvent Hash)) :
    ((Service.init st).steps sdk es).Gone :=
  Along.inv (C := fun _ _ => True) (I := Gone) (fun _ e hs _ => hs.step e)
    (Along.of_forall fun _ _ _ => trivial) fun _ => ⟨rfl, rfl⟩

/-! ## The copy -/

/-- An update has been accepted and none is still to be copied. -/
def Settled (s : Service Hash) : Prop := s.accepted ≠ [] ∧ ∀ i, s.held i = none

/-- **The server's copy is a copy of the engine's configuration.** -/
theorem mirrors (sdk : SDK Hash) :
    Mirrors (step sdk) Gone Settled config (fun s => some s.reported)
      (fun s e => (s.copies e).map some) where
  write s e v hgone hv := by
    obtain ⟨cfg, hcopies, rfl⟩ := Option.map_eq_some_iff.1 hv
    obtain ⟨⟨i, cfg⟩, hcopying, rfl⟩ := Option.map_eq_some_iff.1 hcopies
    cases step_effect sdk hgone e with
    | stay hnone | reset hnone | configure i cfg hnone =>
      rw [hcopying] at hnone
      cases hnone
    | copy j cfg hcopy hconf hconfig hreported =>
      rw [hcopying] at hcopy
      cases hcopy
      exact ⟨congrArg some hreported, hconfig⟩
  stay s e hgone hv hsettled := by
    have hnone : s.copying e = none := by simpa [copies] using hv
    cases step_effect sdk hgone e with
    | stay hcopy hconf hconfig hreported hacc hheld =>
      refine ⟨⟨hacc ▸ hsettled.1, fun i => ?_⟩, hconfig, congrArg some hreported⟩
      rw [← hheld]
      exact hsettled.2 i
    | reset hcopy hconf hacc => exact absurd hacc hsettled.1
    | configure i cfg hcopy hconf hconfig hheld =>
      -- the handler has now something to copy
      have hi := hsettled.2 i
      rw [hheld, Function.update_self] at hi
      cases hi
    | copy i cfg hcopy =>
      rw [hnone] at hcopy
      cases hcopy

/-- What the order of the handlers' steps tells of the copy. -/
structure Ordered (sdk : SDK Hash) (s₀ : Service Hash) (es : List (ServiceEvent Hash))
    (s : Service Hash) : Prop where
  /-- the handler accepted last has what the engine has -/
  held : ∀ i, lastOf (step sdk) configurer s₀ es = some i → ∀ cfg ∈ s.held i, some cfg = s.config
  /-- and once it has copied that, the copy is the configuration, if no other copies -/
  copy : s.Settled → lastOf (step sdk) configurer s₀ es = lastOf (step sdk) copier s₀ es →
    some s.reported = s.config

theorem Ordered.step {s₀ : Service Hash} {es : List (ServiceEvent Hash)}
    (hs : Ordered sdk s₀ es (Lib.run (Service.step sdk) s₀ es))
    (hgone : (Lib.run (Service.step sdk) s₀ es).Gone) (e : ServiceEvent Hash) :
    Ordered sdk s₀ (es ++ [e]) ((Lib.run (Service.step sdk) s₀ es).step sdk e) := by
  generalize hrun : Lib.run (Service.step sdk) s₀ es = s at hs hgone
  have hcopier : s.copying e = none →
      lastOf (Service.step sdk) copier s₀ (es ++ [e]) = lastOf (Service.step sdk) copier s₀ es := by
    intro hnone
    exact lastOf_concat_none (by rw [hrun, copier, hnone]; rfl)
  have hconfigurer : s.configurer e = none → lastOf (Service.step sdk) configurer s₀ (es ++ [e]) =
      lastOf (Service.step sdk) configurer s₀ es := by
    intro hnone
    exact lastOf_concat_none (by rw [hrun, hnone])
  cases step_effect sdk hgone e with
  | stay hcopy hconf hconfig hreported hacc hheld =>
    refine ⟨?_, ?_⟩
    · rw [hconfigurer hconf, hheld, hconfig]
      exact hs.held
    · rw [hconfigurer hconf, hcopier hcopy, hreported, hconfig]
      refine fun hsettled => hs.copy ⟨hacc ▸ hsettled.1, fun i => ?_⟩
      rw [← hheld]
      exact hsettled.2 i
  | reset hcopy hconf hacc hheld =>
    refine ⟨fun i _ cfg hcfg => ?_, fun hsettled => absurd hacc hsettled.1⟩
    rw [hheld i] at hcfg
    cases hcfg
  | configure i cfg hcopy hconf hconfig hheld =>
    refine ⟨fun j hj cfg' hcfg' => ?_, fun hsettled => ?_⟩
    · rw [lastOf_concat_some (by rw [hrun, hconf])] at hj
      cases hj
      rw [hheld, Function.update_self] at hcfg'
      cases hcfg'
      exact hconfig.symm
    · have hi := hsettled.2 i
      rw [hheld, Function.update_self] at hi
      cases hi
  | copy i cfg hcopy hconf hconfig hreported hacc hi hheld =>
    refine ⟨fun j hj cfg' hcfg' => ?_, fun _ heq => ?_⟩
    · rw [hconfigurer hconf] at hj
      rw [hheld] at hcfg'
      by_cases hji : j = i
      · rw [hji, Function.update_self] at hcfg'
        cases hcfg'
      · rw [Function.update_of_ne hji] at hcfg'
        rw [hconfig]
        exact hs.held j hj cfg' hcfg'
    · rw [hconfigurer hconf, lastOf_concat_some (b := i) (by rw [hrun, copier, hcopy]; rfl)] at heq
      rw [hreported, hconfig]
      exact hs.held i heq cfg hi

theorem ordered_steps (sdk : SDK Hash) (st : Store Hash) (es : List (ServiceEvent Hash)) :
    Ordered sdk (Service.init st) es ((Service.init st).steps sdk es) := by
  have h0 : Ordered sdk (Service.init st) [] (Service.init st) :=
    ⟨fun i hi => (by cases hi), fun hsettled => absurd rfl hsettled.1⟩
  exact run_history h0 (fun es e hs => hs.step (gone_steps sdk st es) e) es

theorem settled_of_idle (hidle : s.idle = true) (hacc : s.accepted ≠ []) : s.Settled := by
  refine ⟨hacc, fun i => ?_⟩
  cases hi : s.handlers[i]? with
  | none =>
    rw [held, hi]
    rfl
  | some x =>
    have hdone : x.pc.isDone = true := List.all_eq_true.1 hidle x (List.mem_of_getElem? hi)
    rw [held, hi]
    show x.pc.held = none
    cases hpc : x.pc <;> rw [hpc] at hdone <;> first | rfl | cases hdone

end Service

/-- **When the reported configuration is the effective one.** In every state in which no
request is in progress and an update has been accepted, the server's copy is the engine's
configuration exactly when the last copy was current: since the handler that made it
called `ConfigureBootstrap`, no other update had changed the parameters. It is so whenever
the handler whose update is accepted last is the one that copies last. -/
theorem reported_config_iff (sdk : SDK Hash) (st : Store Hash) (es : List (ServiceEvent Hash))
    {q : Proc Hash} (hq : ((Service.init st).steps sdk es).live.world.proc = some q)
    (hidle : ((Service.init st).steps sdk es).idle = true)
    (hacc : ((Service.init st).steps sdk es).accepted ≠ []) :
    (((Service.init st).steps sdk es).reported = q.config ↔
        ∀ s e, lastCopy (Service.step sdk) Service.copies (Service.init st) es = some (s, e) →
          s.Current e) ∧
      (lastOf (Service.step sdk) Service.configurer (Service.init st) es =
          lastOf (Service.step sdk) Service.copier (Service.init st) es →
        ((Service.init st).steps sdk es).reported = q.config) := by
  have hsettled := Service.settled_of_idle hidle hacc
  have hconfig : ((Service.init st).steps sdk es).config = some q.config := by
    rw [Service.config, hq]
    rfl
  have hiff := (Service.mirrors sdk).copy_eq_iff (Service.init st)
    (fun es => Service.gone_steps sdk st es) (fun h => absurd rfl h.1) es hsettled
  have hlast : lastCopy (Service.step sdk) (fun s e => (s.copies e).map some) (Service.init st) es =
      lastCopy (Service.step sdk) Service.copies (Service.init st) es := by
    simp only [lastCopy, Option.map_map]
    rfl
  rw [hlast] at hiff
  refine ⟨?_, fun heq => ?_⟩
  · rw [← Option.some.injEq, ← hconfig]
    refine hiff.trans (forall_congr' fun s => forall_congr' fun e => imp_congr_right fun _ => ?_)
    simp [Service.Current]
  · have hcopy := (Service.ordered_steps sdk st es).copy hsettled heq
    rw [hconfig] at hcopy
    exact Option.some.inj hcopy


namespace Concrete

/-- A request for `n` chains. -/
def askChains (n : ℤ) : ServiceEvent Bytes :=
  .post ⟨.config, true, true, some ⟨none, some n, none, none⟩⟩

/-- Requests for three and for four chains reach an engine that waits for its funding,
and their handlers take steps in the order `steps`. -/
def twoRequests (steps : List ℕ) : List (ServiceEvent Bytes) :=
  .start (options 2 2 1) [] 100 :: (mains 3).map .engine ++ [askChains 3, askChains 4] ++
    steps.map .handle

end Concrete

/-- The second update is copied before the first: the engine is configured for four
chains, and the server reports three. -/
theorem reported_config_stale :
    let s := (Service.init Store.empty).steps Concrete.plainSDK
      (Concrete.twoRequests [0, 1, 0, 1, 1, 0])
    s.idle = true ∧ s.accepted = [⟨3, 1, 2⟩, ⟨4, 1, 2⟩] ∧ s.reported = ⟨3, 1, 2⟩ ∧
      s.live.world.proc.map Proc.config = some ⟨4, 1, 2⟩ := by
  decide +kernel

theorem reported_config_in_order :
    ∃ q, ((Service.init Store.empty).steps Concrete.plainSDK
        (Concrete.twoRequests [0, 1, 0, 1, 0, 1])).live.world.proc = some q ∧
      ((Service.init Store.empty).steps Concrete.plainSDK
        (Concrete.twoRequests [0, 1, 0, 1, 0, 1])).reported = q.config := by
  have hrun : ((Service.init Store.empty).steps Concrete.plainSDK
      (Concrete.twoRequests [0, 1, 0, 1, 0, 1])).live.world.proc.isSome = true := by
    decide +kernel
  obtain ⟨q, hq⟩ := Option.isSome_iff_exists.1 hrun
  exact ⟨q, hq, (reported_config_iff Concrete.plainSDK Store.empty _ hq (by decide +kernel)
    (by decide +kernel)).2 (by decide +kernel)⟩

end TxGen
