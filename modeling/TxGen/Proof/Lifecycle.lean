import TxGen.Proof.Concrete
import TxGen.Proof.Live

/-!
# The lifecycle of running chains

* `lifecycle_determined_iff`: while chains run, the lifecycle is what the rate and the
  count of failures determine, as long as no failure past the threshold is recorded at
  rate 0 and no chain is resumed past it.
* `stopped_final_iff`: after a cancellation the lifecycle stays `stopped` as long as no
  broadcast that ends after it is a failure past the threshold.
-/

namespace TxGen

open Lib

variable {Hash : Type} {sdk : SDK Hash}

/-! ## Determined by the rate and the failures -/

/-- The lifecycle that the rate and the count of failures determine. -/
def Control.determined (c : Control) : Lifecycle :=
  if c.tps = 0 then .paused
  else if 0 < c.tps ∧ degradedAfterFailures ≤ c.state.consecutiveArcadeFailures then .degraded
  else .running

/-- `runChains` has set the lifecycle, and the context is not canceled. -/
def Live.InChains (s : Live Hash) : Prop :=
  s.run = .chains ∧ ∃ q ∈ s.world.proc, q.ctxDone = false

instance (s : Live Hash) : Decidable s.InChains := inferInstanceAs (Decidable (_ ∧ _))

/-- While chains run, the lifecycle is the determined one. -/
def Live.Determined (s : Live Hash) : Prop :=
  s.InChains → s.control.state.lifecycle = s.control.determined

/-- The steps that keep it so.

* A rate that is set is not negative, and a positive one follows a positive one or
  fewer failures than the threshold.
* A failure that reaches the threshold is recorded at a positive rate.
* The chains are started at a rate that is not negative. -/
def Live.Steady (sdk : SDK Hash) (s : Live Hash) : LiveEvent Hash → Prop
  | .setTPS tps => s.InChains → 0 ≤ tps ∧ (0 < tps → 0 < s.control.tps ∨
      s.control.state.consecutiveArcadeFailures < degradedAfterFailures)
  | .world (.task i e) => s.InChains → ∀ q ∈ s.world.proc, q.record sdk i e = some .fail →
      degradedAfterFailures ≤ s.control.state.consecutiveArcadeFailures + 1 → 0 < s.control.tps
  | .world (.main _) => s.run = .bootstrap → ∀ q ∈ s.world.proc,
      q.main = .chains → q.ctxDone = false → 0 ≤ s.control.tps
  | _ => True

theorem Control.determined_cases (c : Control) :
    (c.determined = .paused ∧ c.tps = 0) ∨
      (c.determined = .degraded ∧ 0 < c.tps ∧
        degradedAfterFailures ≤ c.state.consecutiveArcadeFailures) ∨
      (c.determined = .running ∧ c.tps ≠ 0 ∧
        (0 < c.tps → c.state.consecutiveArcadeFailures < degradedAfterFailures)) := by
  unfold Control.determined
  split_ifs with h0 hd
  · exact Or.inl ⟨rfl, h0⟩
  · exact Or.inr (Or.inl ⟨rfl, hd⟩)
  · refine Or.inr (Or.inr ⟨rfl, h0, fun hpos => ?_⟩)
    have hn : ¬ degradedAfterFailures ≤ c.state.consecutiveArcadeFailures := fun hf => hd ⟨hpos, hf⟩
    omega

/-- `SetTPS` leaves the determined lifecycle exactly in these cases. -/
theorem Control.determined_setTPS {c : Control} (h : c.state.lifecycle = c.determined) (tps : ℤ) :
    (c.setTPS tps).state.lifecycle = (c.setTPS tps).determined ↔
      0 ≤ tps ∧ (0 < tps → 0 < c.tps ∨
        c.state.consecutiveArcadeFailures < degradedAfterFailures) := by
  have hlife : (c.setTPS tps).state.lifecycle = if 0 < tps then
      (if c.determined = .paused then .running else c.determined) else .paused := by
    show (if 0 < tps ∧ c.state.lifecycle = .paused then Lifecycle.running
      else if tps ≤ 0 ∧ (c.state.lifecycle = .running ∨ c.state.lifecycle = .degraded) then .paused
      else c.state.lifecycle) = _
    rw [h]
    rcases c.determined_cases with ⟨hd, -⟩ | ⟨hd, -⟩ | ⟨hd, -⟩ <;> rw [hd] <;>
      by_cases hpos : 0 < tps <;> simp [hpos, not_lt.1]
  have hdet : (c.setTPS tps).determined = if tps = 0 then .paused
      else if 0 < tps ∧ degradedAfterFailures ≤ c.state.consecutiveArcadeFailures then .degraded
      else .running := rfl
  rw [hlife, hdet]
  rcases lt_trichotomy tps 0 with ht | ht | ht
  · have hneg : ¬ 0 < tps := by omega
    have hne : tps ≠ 0 := by omega
    have hle : ¬ 0 ≤ tps := by omega
    simp [hneg, hne, hle]
  · simp [ht]
  · have hne : tps ≠ 0 := by omega
    have hle : 0 ≤ tps := by omega
    rcases c.determined_cases with ⟨hd, h0⟩ | ⟨hd, h0, hf⟩ | ⟨hd, h0, hf⟩
    · by_cases hf : degradedAfterFailures ≤ c.state.consecutiveArcadeFailures
      · simp [hd, h0, hf, ht, hne, hle]
      · simp [hd, h0, hf, ht, hne, hle, not_le.1 hf]
    · simp [hd, h0, hf, ht, hne, hle]
    · by_cases hf' : degradedAfterFailures ≤ c.state.consecutiveArcadeFailures
      · have hn : ¬ 0 < c.tps := fun hp => by have := hf hp; omega
        simp [hd, hf', ht, hne, hle, hn]
      · simp [hd, hf', ht, hne, hle, not_le.1 hf']

theorem Control.determined_fail {c : Control} (h : c.state.lifecycle = c.determined) :
    (c.setState State.recordBroadcastFail).state.lifecycle =
        (c.setState State.recordBroadcastFail).determined ↔
      (degradedAfterFailures ≤ c.state.consecutiveArcadeFailures + 1 → 0 < c.tps) := by
  show (if degradedAfterFailures ≤ c.state.consecutiveArcadeFailures + 1 then Lifecycle.degraded
      else c.state.lifecycle) = (if c.tps = 0 then .paused
      else if 0 < c.tps ∧ degradedAfterFailures ≤ c.state.consecutiveArcadeFailures + 1 then .degraded
      else .running) ↔ _
  rw [h]
  by_cases hf : degradedAfterFailures ≤ c.state.consecutiveArcadeFailures + 1
  · by_cases h0 : c.tps = 0 <;> by_cases hd : 0 < c.tps <;> simp [hf, h0, hd]
  · have hf' : ¬ degradedAfterFailures ≤ c.state.consecutiveArcadeFailures := by omega
    rcases c.determined_cases with ⟨hd, h0⟩ | ⟨hd, h0, hg⟩ | ⟨hd, h0, hg⟩
    · simp [hf, hd, h0]
    · exact absurd hg hf'
    · simp [hf, hd, h0]

theorem Control.determined_ok {c : Control} (h : c.state.lifecycle = c.determined) :
    (c.setState State.recordBroadcastOk).state.lifecycle =
      (c.setState State.recordBroadcastOk).determined := by
  show (if c.state.lifecycle = .degraded then Lifecycle.running else c.state.lifecycle) =
    (if c.tps = 0 then .paused else if 0 < c.tps ∧ degradedAfterFailures ≤ 0 then .degraded
      else .running)
  rw [h]
  rcases c.determined_cases with ⟨hd, h0⟩ | ⟨hd, h0, -⟩ | ⟨hd, h0, -⟩
  · simp [hd, h0]
  · simp [hd, h0.ne', degradedAfterFailures]
  · simp [hd, h0, degradedAfterFailures]

/-- A context stays canceled. -/
theorem ctxDone_step {w : World Hash} {q q' : Proc Hash} {e : Event Hash} (hq : w.proc = some q)
    (h : (w.step sdk e).proc = some q') (hctx : q'.ctxDone = false) : q.ctxDone = false := by
  have he := step_effect sdk w e
  generalize w.step sdk e = w' at h he
  have hsame : ∀ {q₀ : Proc Hash}, w.proc = some q₀ → q₀ = q := by
    intro q₀ h₀
    rw [hq] at h₀
    exact (Option.some.inj h₀).symm
  cases he with
  | idle =>
    rw [hsame h] at hctx
    exact hctx
  | start o initial hw =>
    rw [hq] at hw
    cases hw
  | crash => cases h
  | cancel q₀ hq₀ =>
    cases h
    cases hctx
  | configure u q₀ q₁ hq₀ hst hc =>
    obtain ⟨-, n, f, m, rfl⟩ := configure_ok hc
    cases h
    rw [← hsame hq₀]
    exact hctx
  | poll us q₀ hq₀ | task i e q₀ t t' w₁ queue hq₀ =>
    cases h
    rw [← hsame hq₀]
    exact hctx
  | main ok q₀ w₁ hq₀ hm =>
    rw [← hsame hq₀]
    cases hm with
    | wait =>
      rw [hsame h] at hctx
      rw [hsame hq₀]
      exact hctx
    | newFails => cases h
    | _ =>
      cases h
      exact hctx

namespace Live

variable {s : Live Hash}

/-- A step of the world without effect on the record. -/
theorem Determined.of_world (h : s.Determined) {e : Event Hash} (hp : s.world.proc ≠ none) :
    Determined { s with world := s.world.step sdk e } := by
  rintro ⟨hr, q', hq', hctx⟩
  obtain ⟨q, hq⟩ := Option.ne_none_iff_exists'.1 hp
  exact h ⟨hr, q, hq, ctxDone_step hq hq' hctx⟩

theorem Determined.step (h : s.Determined) (hok : LiveOK s) (e : LiveEvent Hash)
    (hs : s.Steady sdk e) : (s.step sdk e).Determined := by
  have he := live_effect sdk s e
  generalize s.step sdk e = s' at he ⊢
  cases he with
  | idle => exact h
  | outside e q hq | newFails ok q hq | startChain ok q hq =>
    exact h.of_world (by simp [hq])
  | start o initial =>
    rintro ⟨hr, -⟩
    cases hr
  | setTPS tps q hq hst =>
    intro hin
    have hin' : s.InChains := hin
    exact (Control.determined_setTPS (h hin') tps).2 (hs hin')
  | task i e q hq =>
    rintro ⟨hr, q', hq', hctx⟩
    have hin : s.InChains := ⟨hr, q, hq, ctxDone_step hq hq' hctx⟩
    show (s.control.setState (·.after (q.record sdk i e))).state.lifecycle =
      (s.control.setState (·.after (q.record sdk i e))).determined
    cases hrec : q.record sdk i e with
    | none => exact h hin
    | some r =>
      cases r with
      | ok => exact Control.determined_ok (h hin)
      | fail => exact (Control.determined_fail (h hin)).2 (hs hin q hq hrec)
  | configure u q q' hq hst hc =>
    rintro ⟨hr, q₁, hq₁, hctx⟩
    exact h ⟨hr, q, hq, ctxDone_step hq hq₁ hctx⟩
  | boot ok q q' hq hm =>
    rintro ⟨hr, -⟩
    have hr' : s.run = .chains := hr
    exact absurd (hok.main (by rw [hr']; simp) q hq) hm
  | runChains ok q hq hm hr =>
    rintro ⟨-, q', hq', hctx⟩
    have hsame : s.world.proc = some q' := hq'
    have htps := hs hr q' hsame (by rw [hq] at hsame; cases hsame; exact hm) hctx
    -- no chain has failed yet, so `runChains` cannot find the engine degraded
    have hf := hok.failures hr
    show (if 0 < s.control.tps then Lifecycle.running else .paused) =
      (if s.control.tps = 0 then .paused
        else if 0 < s.control.tps ∧
          degradedAfterFailures ≤ s.control.state.consecutiveArcadeFailures then .degraded
        else .running)
    rw [hf]
    by_cases h0 : s.control.tps = 0
    · simp [h0]
    · have hpos : 0 < s.control.tps := by omega
      simp [h0, hpos, degradedAfterFailures]
  | stop ok q hq hm hr | returned ok q hq hm hr =>
    rintro ⟨hr', -⟩
    cases hr'

/-- A step that keeps the determined lifecycle is one of these. -/
theorem Determined.steady (h : s.Determined) (hok : LiveOK s) {e : LiveEvent Hash}
    (h' : (s.step sdk e).Determined) : s.Steady sdk e := by
  cases e with
  | setTPS tps =>
    intro hin
    obtain ⟨hr, q, hq, hctx⟩ := hin
    have hst : q.main.starting = false := by
      rw [hok.main (by rw [hr]; simp) q hq]
      rfl
    have hstep : s.step sdk (.setTPS tps) = { s with control := s.control.setTPS tps } := by
      have hq' : s.world.proc = some q := hq
      simp only [Live.step, hq', hst]
      rfl
    rw [hstep] at h'
    exact (Control.determined_setTPS (h ⟨hr, q, hq, hctx⟩) tps).1 (h' ⟨hr, q, hq, hctx⟩)
  | world e =>
    cases e with
    | task i e =>
      rintro ⟨hr, q, hq, hctx⟩ q' hq' hrec
      have hq₀ : s.world.proc = some q := hq
      have hsame : q' = q := by
        have hq₁ : s.world.proc = some q' := hq'
        rw [hq₀] at hq₁
        exact (Option.some.inj hq₁).symm
      subst hsame
      have hstep : s.step sdk (.world (.task i e)) =
          { s.setState State.recordBroadcastFail with world := s.world.taskStep sdk q' i e } := by
        simp only [Live.step, Live.worldStep, hq₀, hrec]
        rfl
      rw [hstep] at h'
      apply (Control.determined_fail (h ⟨hr, q', hq, hctx⟩)).1
      apply h'
      refine ⟨hr, ?_⟩
      rcases taskStep_effect sdk s.world q' i e with hw | ⟨t, w', queue, t', hi, heff, hw⟩
      · exact ⟨q', by rw [hw]; exact hq, hctx⟩
      · exact ⟨{ q' with queue, tasks := q'.tasks.set i t' }, by rw [hw]; rfl, hctx⟩
    | main ok =>
      intro hr q hq hm hctx
      have hq₀ : s.world.proc = some q := hq
      have hstep : s.step sdk (.world (.main ok)) =
          { s.setState (·.runChains s.control.tps q.numChains) with run := .chains } := by
        simp only [Live.step, Live.worldStep, hq₀, Live.mainStep, hm, Live.chainsStep, hr]
      rw [hstep] at h'
      have hlife : (if 0 < s.control.tps then Lifecycle.running else .paused) =
          (if s.control.tps = 0 then .paused
            else if 0 < s.control.tps ∧
              degradedAfterFailures ≤ s.control.state.consecutiveArcadeFailures then .degraded
            else .running) := h' ⟨rfl, q, hq, hctx⟩
      -- a negative rate: `runChains` reports `paused` where the rate determines `running`
      by_contra hneg
      have hpos : ¬ 0 < s.control.tps := by omega
      have hne : s.control.tps ≠ 0 := by omega
      simp [hpos, hne] at hlife
    | _ => trivial

end Live

/-- **When the lifecycle is determined.** In every state of a run, while chains run, the
lifecycle is the one the rate and the count of failures determine, exactly when every
step is steady. -/
theorem lifecycle_determined_iff (sdk : SDK Hash) (st : Store Hash) (es : List (LiveEvent Hash)) :
    Always (Live.step sdk) Live.Determined (Live.init st) es ↔
      Along (Live.step sdk) (Live.Steady sdk) (Live.init st) es := by
  apply always_iff_along (J := fun s : Live Hash => LiveOK s ∧ s.Determined)
  · exact fun s e h hs => ⟨h.1.step e, h.2.step h.1 e hs⟩
  · exact fun s h => h.2
  · exact fun s e h h' => h.2.steady h.1 h'
  · refine ⟨LiveOK.init st, ?_⟩
    rintro ⟨hr, -⟩
    cases hr

instance (sdk : SDK Hash) [DecidableEq Hash] (s : Live Hash) : ∀ e, Decidable (s.Steady sdk e)
  | .setTPS tps => inferInstanceAs (Decidable (s.InChains → 0 ≤ tps ∧ (0 < tps → 0 < s.control.tps ∨
      s.control.state.consecutiveArcadeFailures < degradedAfterFailures)))
  | .world (.task i e) => inferInstanceAs (Decidable (s.InChains → ∀ q ∈ s.world.proc,
      q.record sdk i e = some .fail →
        degradedAfterFailures ≤ s.control.state.consecutiveArcadeFailures + 1 → 0 < s.control.tps))
  | .world (.main _) => inferInstanceAs (Decidable (s.run = .bootstrap → ∀ q ∈ s.world.proc,
      q.main = .chains → q.ctxDone = false → 0 ≤ s.control.tps))
  | .world .crash | .world .cancel | .world (.start _ _) | .world (.configure _)
  | .world (.poll _) => isTrue trivial

namespace Concrete

/-- Events of the world. -/
def worldEvents (es : List (Event Bytes)) : List (LiveEvent Bytes) := es.map .world

/-- The two chains of `twoChains` are resumed at rate 5. -/
def twoChainsRunning : List (LiveEvent Bytes) :=
  worldEvents (startup (options 5 2 1) 4) ++ .setTPS 5 :: worldEvents (mains 3)

/-- A fifth failure in a row ends after the rate is set to 0. -/
def failAfterPause : List (LiveEvent Bytes) :=
  twoChainsRunning ++ worldEvents (attempt 0 ++ attempt 0 ++ attempt 0 ++ attempt 0 ++
      [.task 0 (.save true 1), .task 0 (.broadcast .rejected)]) ++
    [.setTPS 0, .world (.task 0 (.clear true))]

/-- After five failures in a row the chains are paused and resumed. -/
def resumeAfterFailures : List (LiveEvent Bytes) :=
  twoChainsRunning ++ worldEvents (attempt 0 ++ attempt 0 ++ attempt 0 ++ attempt 0 ++ attempt 0) ++
    [.setTPS 0, .setTPS 5]

/-- Four failures, a pause, a resumption and a success. -/
def pauseAndResume : List (LiveEvent Bytes) :=
  twoChainsRunning ++ worldEvents (attempt 0 ++ attempt 1 ++ attempt 0 ++ attempt 0) ++
    [.setTPS 0, .setTPS 7] ++ worldEvents (attempt 0 ++ succeed 1)

end Concrete

/-- A failure that ends after a pause makes the paused engine degraded, and a pause
clears the degraded state without a success. -/
theorem lifecycle_not_determined :
    (((Live.init Concrete.twoChains).steps Concrete.plainSDK Concrete.failAfterPause).InChains ∧
      ((Live.init Concrete.twoChains).steps Concrete.plainSDK Concrete.failAfterPause).control =
        ⟨0, 0, ⟨.degraded, 0, 2, 5⟩⟩) ∧
    ((Live.init Concrete.twoChains).steps Concrete.plainSDK Concrete.resumeAfterFailures).InChains ∧
      ((Live.init Concrete.twoChains).steps Concrete.plainSDK Concrete.resumeAfterFailures).control =
        ⟨5, 5, ⟨.running, 5, 2, 5⟩⟩ := by
  decide +kernel

/-- A run in which the lifecycle is the determined one throughout. -/
example : Along (Live.step Concrete.plainSDK) (Live.Steady Concrete.plainSDK)
    (Live.init Concrete.twoChains) Concrete.pauseAndResume := by
  decide +kernel

/-! ## Stopped for good -/

/-- `runChains` has written `stopped`. -/
def Live.Ending (s : Live Hash) : Prop := s.run = .stopped ∨ s.run = .returned

instance (s : Live Hash) : Decidable s.Ending := inferInstanceAs (Decidable (_ ∨ _))

/-- From that write on, the lifecycle is `stopped`. -/
def Live.StaysStopped (s : Live Hash) : Prop :=
  s.Ending → s.control.state.lifecycle = .stopped

/-- No broadcast that ends after that write is a failure that reaches the threshold. -/
def Live.QuietEnd (sdk : SDK Hash) (s : Live Hash) : LiveEvent Hash → Prop
  | .world (.task i e) => s.Ending → ∀ q ∈ s.world.proc, q.record sdk i e = some .fail →
      s.control.state.consecutiveArcadeFailures + 1 < degradedAfterFailures
  | _ => True

instance (sdk : SDK Hash) [DecidableEq Hash] (s : Live Hash) : ∀ e, Decidable (s.QuietEnd sdk e)
  | .world (.task i e) => inferInstanceAs (Decidable (s.Ending → ∀ q ∈ s.world.proc,
      q.record sdk i e = some .fail →
        s.control.state.consecutiveArcadeFailures + 1 < degradedAfterFailures))
  | .setTPS _ | .world .crash | .world .cancel | .world (.start _ _) | .world (.configure _)
  | .world (.poll _) | .world (.main _) => isTrue trivial

theorem State.setTPS_stopped {st : State} {tps : ℤ} :
    (st.setTPS tps).lifecycle = .stopped ↔ st.lifecycle = .stopped := by
  unfold State.setTPS
  dsimp only
  split_ifs with hr hp
  · simp [hr.2]
  · rcases hp.2 with h | h <;> simp [h]
  · exact Iff.rfl

/-- What a goroutine records keeps `stopped` unless it is a failure past the threshold. -/
theorem State.after_stopped {st : State} {r : Option Record} :
    (st.after r).lifecycle = .stopped ↔ st.lifecycle = .stopped ∧
      (r = some .fail → st.consecutiveArcadeFailures + 1 < degradedAfterFailures) := by
  cases r with
  | none => simp [State.after]
  | some r =>
    cases r with
    | ok =>
      by_cases hd : st.lifecycle = .degraded <;> simp [State.after, State.recordBroadcastOk, hd]
    | fail =>
      by_cases hf : degradedAfterFailures ≤ st.consecutiveArcadeFailures + 1
      · simp [State.after, State.recordBroadcastFail, hf]
      · simp [State.after, State.recordBroadcastFail, hf, not_le.1 hf]

namespace Live

variable {s : Live Hash}

theorem Ending.run_ne (h : s.Ending) : s.run ≠ .bootstrap ∧ s.run ≠ .chains := by
  rcases h with h | h <;> rw [h] <;> simp

/-- **What a step does to a stopped engine.** A step within one lifetime stays in the
ending phase, and it keeps `stopped` unless it records a failure past the threshold. -/
theorem Ending.step (h : s.Ending) (hok : LiveOK s) (e : LiveEvent Hash) :
    (e.SameLife → (s.step sdk e).Ending) ∧ ((s.step sdk e).Ending →
      ((s.step sdk e).control.state.lifecycle = .stopped ↔
        s.control.state.lifecycle = .stopped ∧ s.QuietEnd sdk e)) := by
  obtain ⟨hb, hc⟩ := h.run_ne
  have heff := live_effect sdk s e
  generalize s.step sdk e = s' at heff ⊢
  cases heff with
  | idle e hi =>
    refine ⟨fun _ => h, fun _ => ?_⟩
    have hquiet : s.QuietEnd sdk e := by
      cases e with
      | setTPS => trivial
      | world e =>
        cases e with
        | task i te =>
          intro _ q hq
          rcases hi with hi | hi
          · rw [hi] at hq
            cases hq
          · exact absurd rfl (hi i te)
        | _ => trivial
    simp [hquiet]
  | outside e q hq ho =>
    refine ⟨fun _ => h, fun _ => ?_⟩
    rcases ho with rfl | rfl | ⟨us, rfl⟩ <;> simp [QuietEnd]
  | newFails ok q hq => exact ⟨fun _ => h, fun _ => by simp [QuietEnd]⟩
  | startChain ok q hq hm hr => exact absurd hr hc
  | start o initial =>
    refine ⟨fun he => he.elim, fun h' => ?_⟩
    rcases h' with h' | h' <;> cases h'
  | setTPS tps q hq =>
    refine ⟨fun _ => h, fun _ => ?_⟩
    simp only [QuietEnd, and_true]
    exact State.setTPS_stopped
  | task i e q hq =>
    refine ⟨fun _ => h, fun _ => ?_⟩
    show (s.control.state.after (q.record sdk i e)).lifecycle = .stopped ↔ _
    rw [State.after_stopped]
    refine and_congr_right fun _ => ⟨fun hlow _ q' hmem hrec => ?_, fun hlow hrec => hlow h q hq hrec⟩
    have hsame : s.world.proc = some q' := hmem
    rw [hq] at hsame
    cases hsame
    exact hlow hrec
  | configure u q q' hq =>
    refine ⟨fun _ => h, fun _ => ?_⟩
    simp only [QuietEnd, and_true]
    exact Iff.rfl
  | boot ok q q' hq hm => exact absurd (hok.main hb q hq) hm
  | runChains ok q hq hm hr => exact absurd hr hb
  | stop ok q hq hm hr => exact absurd hr hc
  | returned ok q hq hm hr => exact ⟨fun _ => Or.inr rfl, fun _ => by simp [QuietEnd]⟩

/-- The ending phase begins with the write of `stopped`. -/
theorem staysStopped_step_of_not_ending (h : ¬ s.Ending) (e : LiveEvent Hash) :
    (s.step sdk e).StaysStopped := by
  have heff := live_effect sdk s e
  generalize s.step sdk e = s' at heff ⊢
  intro h'
  cases heff with
  | idle | outside | newFails | startChain | setTPS | task | configure | boot => exact absurd h' h
  | start | runChains => rcases h' with h' | h' <;> cases h'
  | stop => rfl
  | returned ok q hq hm hr => exact absurd (Or.inl hr) h

theorem StaysStopped.step (h : s.StaysStopped) (hok : LiveOK s) (e : LiveEvent Hash)
    (hquiet : s.QuietEnd sdk e) : (s.step sdk e).StaysStopped := by
  by_cases hend : s.Ending
  · exact fun h' => ((hend.step hok e).2 h').2 ⟨h hend, hquiet⟩
  · exact staysStopped_step_of_not_ending hend e

/-- A failure recorded before the ending phase is of no account for it. -/
theorem quietEnd_of_not_ending (h : ¬ s.Ending) (e : LiveEvent Hash) : s.QuietEnd sdk e := by
  cases e with
  | setTPS => trivial
  | world e =>
    cases e with
    | task i te => exact fun h' => absurd h' h
    | _ => trivial

theorem quietEnd_of_not_sameLife {e : LiveEvent Hash} (h : ¬ e.SameLife) : s.QuietEnd sdk e := by
  cases e with
  | setTPS => trivial
  | world e =>
    cases e with
    | task i te => exact absurd trivial h
    | _ => trivial

/-- A step that keeps the engine stopped is quiet. -/
theorem StaysStopped.quietEnd (hok : LiveOK s) {e : LiveEvent Hash}
    (h' : (s.step sdk e).StaysStopped) : s.QuietEnd sdk e := by
  by_cases hend : s.Ending
  · by_cases he : e.SameLife
    · have hend' : (s.step sdk e).Ending := (hend.step hok e).1 he
      exact (((hend.step hok e).2 hend').1 (h' hend')).2
    · exact quietEnd_of_not_sameLife he
  · exact quietEnd_of_not_ending hend e

/-- Within one lifetime `stopped` is never regained. -/
theorem StaysStopped.of_step (hok : LiveOK s) {e : LiveEvent Hash} (he : e.SameLife)
    (h' : (s.step sdk e).StaysStopped) : s.StaysStopped := by
  intro hend
  have hend' : (s.step sdk e).Ending := (hend.step hok e).1 he
  exact (((hend.step hok e).2 hend').1 (h' hend')).1

end Live

/-! ### After the return of `Run` -/

/-- A goroutine that has ended records nothing. -/
theorem Proc.record_of_ended {q : Proc Hash} (h : q.tasks.all Task.ended = true) (i : ℕ)
    (e : TaskEvent) : q.record sdk i e = none := by
  unfold Proc.record
  split
  · rfl
  rename_i t hi
  have ht : t.ended = true := List.all_eq_true.1 h t (List.mem_of_getElem? hi)
  split <;> rename_i hpc <;> first | rfl | simp [Task.ended, hpc] at ht

/-- `Run` returns when every goroutine has ended. -/
def Live.AllEnded (s : Live Hash) : Prop :=
  s.run = .returned → ∀ q, s.world.proc = some q → q.tasks.all Task.ended = true

namespace Live

variable {s : Live Hash}

theorem AllEnded.step (h : s.AllEnded) (hok : LiveOK s) (e : LiveEvent Hash) :
    (s.step sdk e).AllEnded := by
  have heff := live_effect sdk s e
  generalize s.step sdk e = s' at heff ⊢
  have hmain : ∀ {q}, s.run = .returned → s.world.proc = some q → q.main = .chains := by
    intro q hr hq
    exact hok.main (by rw [hr]; simp) q hq
  intro hr q' hq'
  cases heff with
  | idle | setTPS => exact h hr q' hq'
  | outside e q hq ho =>
    have hold := h hr q hq
    have hch := hmain hr hq
    rcases ho with rfl | rfl | ⟨us, rfl⟩
    · rw [step_crash hq] at hq'
      cases hq'
    · rw [step_cancel hq] at hq'
      cases hq'
      exact hold
    · simp only [World.step, hq, hch] at hq'
      cases hq'
      exact hold
  | newFails ok q hq hst hw =>
    rw [hw] at hq'
    cases hq'
  | startChain ok q hq hm hr' =>
    have hr₀ : s.run = .returned := hr
    rw [hr'] at hr₀
    cases hr₀
  | start => cases hr
  | task i e q hq =>
    have hold := h hr q hq
    rw [step_task hq] at hq'
    rcases taskStep_effect sdk s.world q i e with hw | ⟨t, w', queue, t', hi, heff, -⟩
    · rw [hw, hq] at hq'
      cases hq'
      exact hold
    · have ht := List.all_eq_true.1 hold t (List.mem_of_getElem? hi)
      rw [heff.not_ended] at ht
      cases ht
  | configure u q q₁ hq hst hc =>
    rw [step_configure hq hst hc] at hq'
    cases hq'
    obtain ⟨-, n, f, m, rfl⟩ := configure_ok hc
    exact h hr q hq
  | boot ok q q₁ hq hm => exact absurd (hmain hr hq) hm
  | runChains | stop => cases hr
  | returned ok q hq hm hr' ht =>
    have hsame : s.world.proc = some q' := hq'
    rw [hq] at hsame
    cases hsame
    exact ht

/-- Once `Run` has returned, nothing is recorded any more. -/
theorem AllEnded.quietEnd (h : s.AllEnded) (hr : s.run = .returned) (e : LiveEvent Hash) :
    s.QuietEnd sdk e := by
  cases e with
  | setTPS => trivial
  | world e =>
    cases e with
    | task i te =>
      intro _ q hq hrec
      rw [Proc.record_of_ended (h hr q hq)] at hrec
      cases hrec
    | _ => trivial

theorem returned_step (hr : s.run = .returned) {e : LiveEvent Hash} (he : e.SameLife) :
    (s.step sdk e).run = .returned := by
  have heff := live_effect sdk s e
  generalize s.step sdk e = s' at heff ⊢
  cases heff with
  | idle | outside | newFails | startChain | setTPS | task | configure | boot => exact hr
  | start => exact he.elim
  | runChains ok q hq hm hr' | stop ok q hq hm hr' =>
    rw [hr] at hr'
    cases hr'
  | returned => rfl

end Live

/-- **When `stopped` is final.** Let `Run` return after a cancellation, in any run of any
number of chains. The lifecycle is then `stopped`, and stays so for the rest of the
process, exactly when no broadcast that ends after the write of `stopped` is a failure
that reaches the threshold. -/
theorem stopped_final_iff (sdk : SDK Hash) (st : Store Hash) (past : List (LiveEvent Hash))
    {es : List (LiveEvent Hash)} (hrun : ((Live.init st).steps sdk past).run = .bootstrap)
    (hlife : ∀ e ∈ es, e.SameLife)
    (hret : (((Live.init st).steps sdk past).steps sdk es).run = .returned) :
    (∀ fs : List (LiveEvent Hash), (∀ e ∈ fs, e.SameLife) →
      ((((Live.init st).steps sdk past).steps sdk es).steps sdk fs).control.state.lifecycle =
        .stopped) ↔
    Along (Live.step sdk) (Live.QuietEnd sdk) ((Live.init st).steps sdk past) es := by
  have h0 : LiveOK ((Live.init st).steps sdk past) ∧ ((Live.init st).steps sdk past).AllEnded :=
    Along.inv (C := fun _ _ => True) (I := fun s : Live Hash => LiveOK s ∧ s.AllEnded)
      (fun s e h _ => ⟨h.1.step e, h.2.step h.1 e⟩) (Along.of_forall fun _ _ _ => trivial)
      ⟨LiveOK.init st, fun hr => (by cases hr)⟩
  generalize (Live.init st).steps sdk past = s at hrun hret h0 ⊢
  have hz : s.StaysStopped := by
    rintro (hr | hr) <;> rw [hrun] at hr <;> cases hr
  constructor
  · intro h
    have hend : (s.steps sdk es).StaysStopped := fun _ => h [] (by simp)
    -- `stopped` at the end was never lost before
    have halways : Always (Live.step sdk) Live.StaysStopped s es :=
      always_of_end (D := fun _ e => e.SameLife) (K := LiveOK) (fun s e h _ => h.step e)
        (fun s e hok he h' => h'.of_step hok he) (Along.of_forall fun e he _ => hlife e he) h0.1 hend
    exact (always_iff_along (J := fun s : Live Hash => LiveOK s ∧ s.StaysStopped)
      (fun s e h hq => ⟨h.1.step e, h.2.step h.1 e hq⟩) (fun s h => h.2)
      (fun s e h h' => h'.quietEnd h.1) ⟨h0.1, hz⟩ es).1 halways
  · intro h fs hfs
    have hend := h.inv (I := fun s : Live Hash => (LiveOK s ∧ s.AllEnded) ∧ s.StaysStopped)
      (fun s e h hq => ⟨⟨h.1.1.step e, h.1.2.step h.1.1 e⟩, h.2.step h.1.1 e hq⟩) ⟨h0, hz⟩
    have hlater : Along (Live.step sdk) (fun _ e => e.SameLife) (s.steps sdk es) fs :=
      Along.of_forall fun e he _ => hfs e he
    have hover := hlater.inv
      (I := fun s : Live Hash => ((LiveOK s ∧ s.AllEnded) ∧ s.StaysStopped) ∧ s.run = .returned)
      (fun s e h he => ⟨⟨⟨h.1.1.1.step e, h.1.1.2.step h.1.1.1 e⟩,
        h.1.2.step h.1.1.1 e (h.1.1.2.quietEnd h.2 e)⟩, Live.returned_step h.2 he⟩)
      ⟨hend, hret⟩
    exact hover.1.2 (Or.inr hover.2)

namespace Concrete

/-- With `n` failures behind them both chains have a broadcast in flight when the context
is canceled; `stopped` is written, both broadcasts fail, and `Run` returns. -/
def cancelInFlight (n : ℕ) : List (LiveEvent Bytes) :=
  .setTPS 5 :: worldEvents (mains 3 ++ (List.replicate n (attempt 0)).flatten ++
    [.task 0 (.save true 1), .task 1 (.save true 1), .cancel, .main true,
      .task 0 (.broadcast .rejected), .task 0 (.clear true), .task 0 .giveUp,
      .task 1 (.broadcast .rejected), .task 1 (.clear true), .task 1 .giveUp, .main true])

end Concrete

/-- Two broadcasts that fail by the cancellation, after three failures, leave the engine
degraded when `Run` has returned. -/
theorem stopped_overwritten :
    let s := (Live.init Concrete.twoChains).steps Concrete.plainSDK
      (Concrete.worldEvents (Concrete.startup (Concrete.options 5 2 1) 4) ++
        Concrete.cancelInFlight 3)
    s.run = .returned ∧ s.world.proc.map Proc.ctxDone = some true ∧
      s.control.state.lifecycle = .degraded := by
  decide +kernel

theorem stopped_after_two_failures :
    let s := (Live.init Concrete.twoChains).steps Concrete.plainSDK
      (Concrete.worldEvents (Concrete.startup (Concrete.options 5 2 1) 4))
    s.run = .bootstrap ∧ (s.steps Concrete.plainSDK (Concrete.cancelInFlight 0)).run = .returned ∧
      ∀ fs : List (LiveEvent Bytes), (∀ e ∈ fs, e.SameLife) →
        ((s.steps Concrete.plainSDK (Concrete.cancelInFlight 0)).steps Concrete.plainSDK
          fs).control.state.lifecycle = .stopped :=
  ⟨by decide +kernel, by decide +kernel,
    (stopped_final_iff Concrete.plainSDK Concrete.twoChains _ (by decide +kernel)
      (by decide +kernel) (by decide +kernel)).2 (by decide +kernel)⟩

end TxGen
