import TxGen.Proof.Steps
import TxGen.Spec.Live

/-!
# What a step does to the state record

The steps of a running engine, inverted once (`live_effect`). Their world is a run of
`TxGen.Spec.World` (`exists_world_run`).
-/

namespace TxGen

open Lib

variable {Hash : Type} {sdk : SDK Hash}

/-- What an event leads to. -/
inductive LiveEffect (sdk : SDK Hash) (s : Live Hash) : LiveEvent Hash → Live Hash → Prop
  /-- the event is not enabled, or changes nothing -/
  | idle (e : LiveEvent Hash)
      (hi : s.world.proc = none ∨ ∀ i te, e ≠ .world (.task i te)) : LiveEffect sdk s e s
  /-- the surroundings act: a crash, a cancellation, an answer of the UTXO source -/
  | outside (e : Event Hash) (q : Proc Hash) (hq : s.world.proc = some q)
      (he : e = .crash ∨ e = .cancel ∨ ∃ us, e = .poll us) :
      LiveEffect sdk s (.world e) { s with world := s.world.step sdk e }
  /-- `New` returns an error -/
  | newFails (ok : Bool) (q : Proc Hash) (hq : s.world.proc = some q) (hst : q.main.starting = true)
      (hw : (s.world.step sdk (.main ok)).proc = none) :
      LiveEffect sdk s (.world (.main ok)) { s with world := s.world.step sdk (.main ok) }
  /-- a queued chain is started -/
  | startChain (ok : Bool) (q : Proc Hash) (hq : s.world.proc = some q) (hm : q.main = .chains)
      (hr : s.run = .chains) :
      LiveEffect sdk s (.world (.main ok)) { s with world := s.world.step sdk (.main ok) }
  | start (o : Options Hash) (initial : List UTXO) (hw : s.world.proc = none)
      (hs : s.world.startsWith initial = true) :
      LiveEffect sdk s (.world (.start o initial))
        ⟨s.world.step sdk (.start o initial),
          Control.new (positiveOr o.numChains defaultNumChains), .bootstrap⟩
  | setTPS (tps : ℤ) (q : Proc Hash) (hq : s.world.proc = some q) (hst : q.main.starting = false) :
      LiveEffect sdk s (.setTPS tps) { s with control := s.control.setTPS tps }
  | task (i : ℕ) (e : TaskEvent) (q : Proc Hash) (hq : s.world.proc = some q) :
      LiveEffect sdk s (.world (.task i e))
        { s.setState (·.after (q.record sdk i e)) with world := s.world.step sdk (.task i e) }
  | configure (u : BootstrapUpdate) (q q' : Proc Hash) (hq : s.world.proc = some q)
      (hst : q.main.starting = false) (hc : q.configureBootstrap u = .ok q') :
      LiveEffect sdk s (.world (.configure u))
        { s.setState (·.configured q'.numChains) with world := s.world.step sdk (.configure u) }
  | boot (ok : Bool) (q q' : Proc Hash) (hq : s.world.proc = some q)
      (hm : q.main ≠ .chains) (hf : q.main.isFailed = false)
      (hq' : (s.world.step sdk (.main ok)).proc = some q') :
      LiveEffect sdk s (.world (.main ok))
        { s.setState (q.bootWrite q') with world := s.world.step sdk (.main ok) }
  | runChains (ok : Bool) (q : Proc Hash) (hq : s.world.proc = some q) (hm : q.main = .chains)
      (hr : s.run = .bootstrap) :
      LiveEffect sdk s (.world (.main ok))
        { s.setState (·.runChains s.control.tps q.numChains) with run := .chains }
  | stop (ok : Bool) (q : Proc Hash) (hq : s.world.proc = some q) (hm : q.main = .chains)
      (hr : s.run = .chains) (hctx : q.ctxDone = true) (hqueue : q.queue = []) :
      LiveEffect sdk s (.world (.main ok)) { s.setState State.stop with run := .stopped }
  | returned (ok : Bool) (q : Proc Hash) (hq : s.world.proc = some q) (hm : q.main = .chains)
      (hr : s.run = .stopped) (ht : q.tasks.all Task.ended = true) :
      LiveEffect sdk s (.world (.main ok)) { s with run := .returned }

theorem exit_starting {w : World Hash} {q : Proc Hash} {ok : Bool} (h : (w.mainStep q ok).proc = none)
    (hq : w.proc = some q) : q.main.starting = true := by
  have he := mainStep_effect w q ok
  generalize w.mainStep q ok = w' at h he
  cases he with
  | wait =>
    rw [hq] at h
    cases h
  | newFails hst => exact hst
  | _ => cases h

/-- **Inversion of an event.** -/
theorem live_effect (sdk : SDK Hash) (s : Live Hash) (e : LiveEvent Hash) :
    LiveEffect sdk s e (s.step sdk e) := by
  cases e with
  | setTPS tps =>
    unfold Live.step
    dsimp only
    split
    · exact .idle _ (Or.inr (by simp))
    · rename_i q hq
      split_ifs with hst
      · exact .idle _ (Or.inr (by simp))
      · exact .setTPS tps q hq (by simpa using hst)
  | world e =>
    show LiveEffect sdk s _ (s.worldStep sdk e)
    cases hq : s.world.proc with
    | none =>
      cases e with
      | start o initial =>
        simp only [Live.worldStep, hq]
        have hstep : s.world.step sdk (.start o initial) = _ := step_start hq o initial
        by_cases hs : s.world.startsWith initial = true
        · rw [if_pos hs] at hstep
          have hproc : (s.world.step sdk (.start o initial)).proc =
              some (Proc.new o s.world.store.loadAll initial) := by rw [hstep]
          rw [hproc]
          exact .start o initial hq hs
        · rw [if_neg hs] at hstep
          rw [hstep, hq]
          exact .idle _ (Or.inl hq)
      | _ =>
        simp only [Live.worldStep, hq, World.step]
        exact .idle _ (Or.inl hq)
    | some q =>
      cases e with
      | start o initial =>
        simp only [Live.worldStep, hq, World.step]
        exact .idle _ (Or.inr (by simp))
      | crash | cancel =>
        simp only [Live.worldStep]
        exact .outside _ q hq (by simp)
      | poll us =>
        simp only [Live.worldStep]
        exact .outside _ q hq (Or.inr (Or.inr ⟨us, rfl⟩))
      | configure u =>
        simp only [Live.worldStep, hq]
        split_ifs with hst
        · exact .idle _ (Or.inr (by simp))
        · split
          · exact .idle _ (Or.inr (by simp))
          · rename_i q' hc
            have hst' : q.main.starting = false := by simpa using hst
            rw [← step_configure hq hst' hc]
            exact .configure u q q' hq hst' hc
      | task i te =>
        simp only [Live.worldStep, hq]
        rw [← step_task hq]
        exact .task i te q hq
      | main ok =>
        have hstep : s.world.step sdk (.main ok) = _ := step_main hq ok
        simp only [Live.worldStep, hq, Live.mainStep]
        split
        · rename_i hm
          unfold Live.chainsStep
          split
          · rename_i hr
            exact .runChains ok q hq hm hr
          · rename_i hr
            split_ifs with hne hctx
            · rw [← hstep]
              exact .startChain ok q hq hm hr
            · exact .stop ok q hq hm hr hctx (by simpa using hne)
            · exact .idle _ (Or.inr (by simp))
          · rename_i hr
            split_ifs with ht
            · exact .returned ok q hq hm hr ht
            · exact .idle _ (Or.inr (by simp))
          · exact .idle _ (Or.inr (by simp))
        · rename_i hm
          unfold Live.bootStep
          dsimp only
          rw [← hstep]
          split_ifs with hf
          · exact .idle _ (Or.inr (by simp))
          · split
            · rename_i hw
              exact .newFails ok q hq (exit_starting (hstep ▸ hw) hq) hw
            · rename_i q' hw
              exact .boot ok q q' hq hm (by simpa using hf) hw

/-- An event within one lifetime of the process. -/
def LiveEvent.SameLife : LiveEvent Hash → Prop
  | .world e => TxGen.SameLife e
  | .setTPS _ => True

instance : DecidablePred (@LiveEvent.SameLife Hash)
  | .world e => inferInstanceAs (Decidable (TxGen.SameLife e))
  | .setTPS _ => isTrue trivial

/-- A step is a step of the world, or leaves the world as it is. -/
theorem live_world (sdk : SDK Hash) (s : Live Hash) (e : LiveEvent Hash) :
    (s.step sdk e).world = s.world ∨
      ∃ d, (s.step sdk e).world = s.world.step sdk d ∧ e = .world d := by
  have he := live_effect sdk s e
  generalize s.step sdk e = s' at he ⊢
  cases he with
  | idle | setTPS | runChains | stop | returned => exact Or.inl rfl
  | outside d | newFails | startChain | boot | start | task | configure => exact Or.inr ⟨_, rfl, rfl⟩

/-- **The world of a running engine is a run of the world.** -/
theorem exists_world_run (sdk : SDK Hash) (s : Live Hash) (es : List (LiveEvent Hash)) :
    ∃ ds, (s.steps sdk es).world = s.world.run sdk ds := by
  apply exists_run_of_sim (f := Live.world)
  intro s e
  rcases live_world sdk s e with h | ⟨d, h, -⟩
  · exact ⟨[], h⟩
  · exact ⟨[d], h⟩

/-! ## What holds in every state -/

/-- A process that starts chains goes on doing so. -/
theorem main_chains {w : World Hash} {q q' : Proc Hash} {e : Event Hash} (hq : w.proc = some q)
    (hm : q.main = .chains) (h : (w.step sdk e).proc = some q') : q'.main = .chains := by
  have he := step_effect sdk w e
  generalize hw' : w.step sdk e = w' at h he
  cases he with
  | idle =>
    rw [hq] at h
    cases h
    exact hm
  | start o initial hw =>
    rw [hq] at hw
    cases hw
  | crash => cases h
  | cancel q₀ hq₀ =>
    rw [hq] at hq₀
    cases hq₀
    cases h
    exact hm
  | configure u q₀ q₁ hq₀ hst hc =>
    rw [hq] at hq₀
    cases hq₀
    obtain ⟨-, n, f, m, rfl⟩ := configure_ok hc
    cases h
    exact hm
  | poll us q₀ hq₀ hm₀ =>
    rw [hq] at hq₀
    cases hq₀
    rw [hm] at hm₀
    cases hm₀
  | main ok =>
    rw [step_main hq, World.mainStep, hm] at hw'
    dsimp only at hw'
    split at hw'
    · rw [← hw', hq] at h
      cases h
      exact hm
    · rw [← hw'] at h
      cases h
      rfl
  | task i e q₀ t t' w₁ queue hq₀ =>
    rw [hq] at hq₀
    cases hq₀
    cases h
    exact hm

/-- What holds of a running engine: `runChains` is entered after `bootstrap` only, and
until then no chain runs and no failure is counted. -/
structure LiveOK (s : Live Hash) : Prop where
  main : s.run ≠ .bootstrap → ∀ q, s.world.proc = some q → q.main = .chains
  kinds : s.run = .bootstrap → ∀ q, s.world.proc = some q → ∀ t ∈ q.tasks, t.kind ≠ .sustain
  failures : s.run = .bootstrap → s.control.state.consecutiveArcadeFailures = 0

/-- Only a chain records a failure. -/
theorem Proc.record_fail {q : Proc Hash} {i : ℕ} {e : TaskEvent}
    (h : q.record sdk i e = some .fail) : ∃ t ∈ q.tasks, t.kind = .sustain := by
  unfold Proc.record at h
  split at h
  · cases h
  rename_i t hi
  refine ⟨t, List.mem_of_getElem? hi, ?_⟩
  split at h
  · split at h
    · cases h
    · split_ifs at h with hk
      exact hk.1
  · split_ifs at h with hk
    exact hk
  · cases h
  · split_ifs at h with hk
    exact hk
  · cases h

theorem Task.kind_afterCommit (t : Task Hash) (p : PendingBroadcast Hash) :
    (t.afterCommit p).kind = t.kind := by
  unfold Task.afterCommit
  repeat' split
  all_goals rfl

theorem TaskEffect.kind_eq {w w' : World Hash} {q : Proc Hash} {t t' : Task Hash} {e : TaskEvent}
    {queue : List UTXO} (h : TaskEffect sdk w q t e w' queue t') : t'.kind = t.kind := by
  cases h with
  | commit p => exact t.kind_afterCommit p
  | _ => rfl

theorem Proc.bootWrite_failures (q q' : Proc Hash) (st : State) :
    (q.bootWrite q' st).consecutiveArcadeFailures = st.consecutiveArcadeFailures := by
  unfold Proc.bootWrite
  cases q.main <;> split_ifs <;> rfl

theorem State.after_failures_of_ne {st : State} {r : Option Record} (h : r ≠ some .fail)
    (h0 : st.consecutiveArcadeFailures = 0) : (st.after r).consecutiveArcadeFailures = 0 := by
  cases r with
  | none => exact h0
  | some r =>
    cases r with
    | ok => rfl
    | fail => exact absurd rfl h

theorem LiveOK.step {s : Live Hash} (h : LiveOK s) (e : LiveEvent Hash) : LiveOK (s.step sdk e) := by
  have he := live_effect sdk s e
  generalize s.step sdk e = s' at he ⊢
  -- a step of the world keeps `runChains` and the goroutines' kinds
  have hmain : ∀ e, s.run ≠ .bootstrap → ∀ q', (s.world.step sdk e).proc = some q' →
      s.world.proc ≠ none → q'.main = .chains := by
    intro e hr q' hq' hne
    obtain ⟨q, hq⟩ := Option.ne_none_iff_exists'.1 hne
    exact main_chains hq (h.main hr q hq) hq'
  cases he with
  | idle => exact h
  | outside e q hq he =>
    have hne : s.world.proc ≠ none := by simp [hq]
    refine ⟨fun hr q' hq' => hmain e hr q' hq' hne, fun hr q' hq' => ?_, h.failures⟩
    have hkinds := h.kinds hr q hq
    rcases he with rfl | rfl | ⟨us, rfl⟩
    · rw [step_crash hq] at hq'
      cases hq'
    · rw [step_cancel hq] at hq'
      cases hq'
      exact hkinds
    · simp only [World.step, hq] at hq'
      split at hq'
      · split_ifs at hq'
        · rw [hq] at hq'
          cases hq'
          exact hkinds
        · cases hq'
          exact hkinds
      · rw [hq] at hq'
        cases hq'
        exact hkinds
  | newFails ok q hq hst hw =>
    refine ⟨fun _ q' hq' => ?_, fun _ q' hq' => ?_, h.failures⟩
    · rw [hw] at hq'
      cases hq'
    · rw [hw] at hq'
      cases hq'
  | startChain ok q hq hm hr =>
    refine ⟨fun hr q' hq' => hmain _ hr q' hq' (by simp [hq]), fun hr' => ?_, h.failures⟩
    exact absurd (hr.symm.trans hr') (by simp)
  | start o initial hw hs =>
    refine ⟨fun hr => absurd rfl hr, fun _ q' hq' t ht => ?_, fun _ => rfl⟩
    rw [step_start hw, if_pos hs] at hq'
    cases hq'
    cases ht
  | setTPS tps q hq hst => exact ⟨h.main, h.kinds, h.failures⟩
  | task i e q hq =>
    refine ⟨fun hr q' hq' => hmain _ hr q' hq' (by simp [hq]), fun hr q' hq' => ?_, fun hr => ?_⟩
    · have hkinds := h.kinds hr q hq
      rw [step_task hq] at hq'
      rcases taskStep_effect sdk s.world q i e with hw | ⟨t, w', queue, t', hi, heff, hw⟩
      · rw [hw, hq] at hq'
        cases hq'
        exact hkinds
      · rw [hw] at hq'
        cases hq'
        refine forall_set hkinds ?_
        rw [heff.kind_eq]
        exact hkinds t (List.mem_of_getElem? hi)
    · apply State.after_failures_of_ne _ (h.failures hr)
      intro hfail
      obtain ⟨t, ht, hk⟩ := Proc.record_fail hfail
      exact h.kinds hr q hq t ht hk
  | configure u q q' hq hst hc =>
    refine ⟨fun hr q' hq' => hmain _ hr q' hq' (by simp [hq]), fun hr q₁ hq₁ => ?_, h.failures⟩
    rw [step_configure hq hst hc] at hq₁
    cases hq₁
    obtain ⟨-, n, f, m, rfl⟩ := configure_ok hc
    exact h.kinds hr q hq
  | boot ok q q' hq hm hf hq' =>
    refine ⟨fun hr q₁ hq₁ => ?_, fun hr q₁ hq₁ t ht => ?_, fun hr => ?_⟩
    · exact absurd (h.main hr q hq) hm
    · rw [step_main hq] at hq₁
      rcases (mainStep_effect s.world q ok).tasks hq hq₁ t ht with ht | ⟨-, -, hstart⟩
      · exact h.kinds hr q hq t ht
      · intro hk
        unfold Task.StartedBy at hstart
        rw [hk] at hstart
        exact hm hstart
    · exact (q.bootWrite_failures q' _).trans (h.failures hr)
  | runChains ok q hq hm hr =>
    refine ⟨fun _ q' hq' => ?_, fun hr' => ?_, fun hr' => ?_⟩
    · have hsame : s.world.proc = some q' := hq'
      rw [hq] at hsame
      cases hsame
      exact hm
    · cases hr'
    · cases hr'
  | stop ok q hq hm hr =>
    refine ⟨fun _ => h.main (by rw [hr]; simp), fun hr' => ?_, fun hr' => ?_⟩
    · cases hr'
    · cases hr'
  | returned ok q hq hm hr =>
    refine ⟨fun _ => h.main (by rw [hr]; simp), fun hr' => ?_, fun hr' => ?_⟩
    · cases hr'
    · cases hr'

theorem LiveOK.init (st : Store Hash) : LiveOK (Live.init st) :=
  ⟨fun hr => absurd rfl hr, fun _ q hq => (by cases hq), fun _ => rfl⟩

end TxGen
