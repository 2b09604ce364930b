import TxGen.Proof.Concrete
import TxGen.Proof.Invariant

/-!
# Bootstrap parameters across a restart

The parameters set by `ConfigureBootstrap` live in the memory of the process. A
restarted process takes those of its options, and once it has restored a UTXO or a
stage every change is refused, so these are the parameters of the whole lifetime.
-/

namespace TxGen

open Lib

variable {Hash : Type} {sdk : SDK Hash}

/-- A process at the end of `New` has restored a UTXO or a stage. -/
def RestoredState (w : World Hash) : Prop :=
  ∀ q, w.proc = some q → q.main = .ready → q.stage ≠ .none ∨ q.queue ≠ []

instance [DecidableEq Hash] (w : World Hash) : Decidable (RestoredState w) :=
  inferInstanceAs (Decidable (∀ q ∈ w.proc, q.main = .ready → q.stage ≠ .none ∨ q.queue ≠ []))

/-- The process has the configuration `c`, and keeps it once `New` has returned. -/
def Settled (c : BootstrapConfig) (q : Proc Hash) : Prop :=
  q.config = c ∧
    match q.main with
    | .persist _ | .replay .. | .replayStage .. | .ready | .failed _ => True
    | .lock _ => q.stage ≠ .none ∨ q.queue ≠ []
    | .waitForSeed | .pushSeed _ => False
    | _ => q.bootstrapLocked = true

/-- A settled process refuses every change of its parameters. -/
theorem Settled.funded {c : BootstrapConfig} {q : Proc Hash} (h : Settled c q)
    (hst : q.main.starting = false) (hready : q.main = .ready → q.stage ≠ .none ∨ q.queue ≠ []) :
    q.funded = true := by
  have hs : q.stage ≠ .none ∨ q.queue ≠ [] → q.funded = true := by
    rintro (h | h) <;> simp [Proc.funded, h]
  have hl : q.bootstrapLocked = true → q.funded = true := fun h => by simp [Proc.funded, h]
  obtain ⟨-, hm⟩ := h
  cases hmain : q.main with
  | persist | replay | replayStage => rw [hmain] at hst; cases hst
  | ready => exact hs (hready hmain)
  | failed => simp [Proc.funded, Proc.bootstrapping, hmain]
  | lock => rw [hmain] at hm; exact hs hm
  | waitForSeed | pushSeed => rw [hmain] at hm; exact hm.elim
  | full | l1 | l2Start | l2 | markDone | chains => rw [hmain] at hm; exact hl hm

/-- A step of the main goroutine keeps a process settled. -/
theorem Settled.mainEffect {c : BootstrapConfig} {w w' : World Hash} {q q' : Proc Hash}
    (h : Settled c q) (hq : w.proc = some q) (hr : RestoredState w) {ok : Bool}
    (he : MainEffect w q ok w') (h' : w'.proc = some q') : Settled c q' := by
  refine ⟨(he.params hq h').config_eq.trans h.1, ?_⟩
  have hm := h.2
  cases he with
  | wait =>
    rw [hq] at h'
    cases h'
    exact hm
  | newFails => cases h'
  | persist | persisted | replayUnknown | replayStage | restored | restoredUnknown | fail | failAt =>
    cases h'
    trivial
  | replayCommit p =>
    cases h'
    dsimp only
    cases p.stage <;> trivial
  | waitForSeed _ hmain hst hqueue =>
    -- excluded: `New` restored a UTXO or a stage
    rcases hr q hq hmain with hne | hne
    · exact absurd hst hne
    · exact absurd hqueue hne
  | ready _ hmain =>
    cases h'
    exact hr q hq hmain
  | pushSeed u rest hmain => rw [hmain] at hm; exact hm.elim
  | seeded _ hmain => rw [hmain] at hm; exact hm.elim
  | lock _ stage =>
    cases h'
    dsimp only
    rcases dispatch_cases Hash stage q.queue.length q.numChains q.l1Count with
      hd | hd | hd | hd | ⟨e, hd⟩ <;> rw [hd]
    trivial
  | beginL1 _ _ _ hmain | endL1 _ _ _ hmain | beginL2 _ hmain | endL2 _ hmain | markDone _ hmain =>
    cases h'
    rw [hmain] at hm
    exact hm
  | startChain _ u rest hmain =>
    cases h'
    rw [hmain] at hm
    dsimp only
    rw [hmain]
    exact hm

/-- The process of `w`, if there is one, is settled. -/
def SettledAt (c : BootstrapConfig) (w : World Hash) : Prop := ∀ q, w.proc = some q → Settled c q

/-- One event within a lifetime. -/
theorem SettledAt.step {c : BootstrapConfig} {w : World Hash} (h : SettledAt c w) (hr : RestoredState w)
    {e : Event Hash} (he : SameLife e) : SettledAt c (w.step sdk e) := by
  have heff := step_effect sdk w e
  generalize w.step sdk e = w' at heff ⊢
  intro q' hq'
  cases heff with
  | idle => exact h q' hq'
  | start | crash => exact he.elim
  | cancel q hq =>
    cases hq'
    exact ⟨(h q hq).1, (h q hq).2⟩
  | configure u q q₁ hq hst hc =>
    -- an accepted update contradicts `funded`
    have hf := (h q hq).funded hst (hr q hq)
    rw [(configure_ok hc).1] at hf
    cases hf
  | poll us q hq hmain =>
    have hm := (h q hq).2
    rw [hmain] at hm
    exact hm.elim
  | main ok q w' hq hmain => exact (h q hq).mainEffect hq hr hmain hq'
  | task i te q t t' w' queue hq hi htask =>
    cases hq'
    refine ⟨(h q hq).1, ?_⟩
    have hm := (h q hq).2
    have hqueue : q.queue ≠ [] → queue ≠ [] := by
      intro hne
      rcases htask.queue_cases with rfl | ⟨u, rfl⟩
      · exact hne
      · intro hnil
        have := (Queue.push_perm q.queue u).length_eq
        simp [hnil] at this
    dsimp only
    cases hmain : q.main with
    | lock st =>
      rw [hmain] at hm
      exact hm.imp_right hqueue
    | _ =>
      rw [hmain] at hm
      exact hm

/-- A process that starts has the configuration of its options. -/
theorem settledAt_start {w : World Hash} (hw : w.proc = none) (o : Options Hash)
    (initial : List UTXO) : SettledAt o.config (w.step sdk (.start o initial)) := by
  intro q' hq'
  rw [step_start hw] at hq'
  split_ifs at hq'
  · cases hq'
    exact ⟨rfl, trivial⟩
  · rw [hw] at hq'
    cases hq'

/-- **Parameters after a restart.** Whatever parameters the crashed process `q` had
fixed, the process that follows it has those of its own options for its whole
lifetime, once its `New` has restored a UTXO or a stage, and refuses every further
change. They are the ones fixed before the crash exactly when these were the options'
own. -/
theorem restart_config {w : World Hash} {q q' : Proc Hash} (hq : w.proc = some q)
    (o : Options Hash) (initial : List UTXO) {fs : List (Event Hash)}
    (hfs : Along (World.step sdk) (fun w e => SameLife e ∧ RestoredState w)
      (w.run sdk [.crash, .start o initial]) fs)
    (hq' : (w.run sdk (.crash :: .start o initial :: fs)).proc = some q') :
    q'.config = o.config ∧ (q'.config = q.config ↔ q.config = o.config) ∧
      (q'.main.starting = false → (q'.main = .ready → q'.stage ≠ .none ∨ q'.queue ≠ []) →
        ∀ u, ∃ e, q'.configureBootstrap u = .error e) := by
  have hstart : SettledAt o.config (w.run sdk [.crash, .start o initial]) := by
    show SettledAt o.config ((w.step sdk .crash).step sdk (.start o initial))
    rw [step_crash hq]
    exact settledAt_start rfl o initial
  have hend : SettledAt o.config ((w.run sdk [.crash, .start o initial]).run sdk fs) :=
    Along.inv (fun w e h hC => h.step hC.2 hC.1) hfs hstart
  have hsettled : Settled o.config q' := hend q' hq'
  have hc : q'.config = o.config := hsettled.1
  refine ⟨hc, by rw [hc, eq_comm], fun hst hready u => ?_⟩
  rw [Proc.configureBootstrap]
  cases Proc.checkUpdate u with
  | some e => exact ⟨e, rfl⟩
  | none =>
    dsimp only
    rw [if_pos (hsettled.funded hst hready)]
    exact ⟨.bootstrapLocked, rfl⟩

/-- A process for two chains is configured for three and funded, and fixes that. -/
def configuredRun : List (Event Bytes) :=
  Concrete.startup (Concrete.options 2 2 1) 3 ++
    [.configure ⟨some 3, some 2, some 5⟩, .poll [Concrete.funding 0 10000],
      .main true, .main true, .main true]

/-- Before the crash the parameters are fixed at three chains; a restart with the
same options bootstraps two. -/
theorem configured_then_restarted :
    (Concrete.runEmpty configuredRun).proc.any
        (fun q => q.bootstrapLocked && decide (q.config = ⟨3, 2, 5⟩)) = true ∧
      (Concrete.runEmpty (configuredRun ++ .crash :: Concrete.startup (Concrete.options 2 2 1) 4)).proc.any
        (fun q => q.bootstrapLocked && decide (q.config = ⟨2, 1, 2⟩)) = true := by
  decide +kernel

theorem restart_config_configured : ∃ q q', (Concrete.runEmpty configuredRun).proc = some q ∧
    q.config = ⟨3, 2, 5⟩ ∧
    ((Concrete.runEmpty configuredRun).run Concrete.plainSDK (.crash :: .start (Concrete.options 2 2 1) [] ::
      List.replicate 4 (.main true))).proc = some q' ∧
    q'.config = ⟨2, 1, 2⟩ ∧ q'.config ≠ q.config := by
  have hrun : (Concrete.runEmpty configuredRun).proc.any (fun q => decide (q.config = ⟨3, 2, 5⟩)) = true := by
    decide +kernel
  have hnew : ((Concrete.runEmpty configuredRun).run Concrete.plainSDK
      (.crash :: .start (Concrete.options 2 2 1) [] :: List.replicate 4 (.main true))).proc.any
      (fun _ => true) = true := by
    decide +kernel
  obtain ⟨q, hq, hcq⟩ := (Option.any_eq_true _ _).1 hrun
  obtain ⟨q', hq', -⟩ := (Option.any_eq_true _ _).1 hnew
  have hcfg : q.config = ⟨3, 2, 5⟩ := of_decide_eq_true hcq
  obtain ⟨hc, hiff, -⟩ := restart_config hq (Concrete.options 2 2 1) [] (by decide +kernel) hq'
  refine ⟨q, q', hq, hcfg, hq', hc, fun heq => ?_⟩
  rw [hcfg] at hiff
  exact absurd (hiff.1 (heq.trans hcfg)) (by decide)

end TxGen
