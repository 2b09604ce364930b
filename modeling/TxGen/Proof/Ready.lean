import TxGen.Proof.Lifecycle
import TxGen.Spec.Ready

/-!
# When the server is ready

An answer of 200 to `/readyz` is taken from two states of the engine and says something of
each (`ready_while_chains_run`): the stage is `l2_done` and the counter of failures zero
when the record is copied, and chains run when they are counted. It needs what the lifecycle can be
while chains run, after the cancellation as well, where `stopped` may be lost.
-/

namespace TxGen

open Lib

variable {Hash : Type} {sdk : SDK Hash}

/-! ## The lifecycle while chains run -/

/-- A lifecycle that `runChains` and what comes after it can lead to. -/
def Lifecycle.chained : Lifecycle → Bool
  | .running | .paused | .degraded | .stopped => true
  | _ => false

/-- The engine is degraded by failures only. -/
def State.Blamed (st : State) : Prop :=
  st.lifecycle = .degraded → degradedAfterFailures ≤ st.consecutiveArcadeFailures

namespace State

variable {st : State}

theorem Blamed.of_lifecycle (l : Lifecycle) (h : st.lifecycle = l) (hl : l ≠ .degraded) :
    st.Blamed :=
  fun hlife => absurd (h.symm.trans hlife) hl

theorem chained_setTPS (tps : ℤ) (h : st.lifecycle.chained = true) :
    (st.setTPS tps).lifecycle.chained = true := by
  rw [setTPS]
  dsimp only
  split_ifs
  · rfl
  · rfl
  · exact h

theorem chained_after (r : Option Record) (h : st.lifecycle.chained = true) :
    (st.after r).lifecycle.chained = true := by
  rcases r with _ | _ | _
  · exact h
  · rw [after, recordBroadcastOk]
    dsimp only
    split_ifs
    · rfl
    · exact h
  · rw [after, recordBroadcastFail]
    dsimp only
    split_ifs
    · rfl
    · exact h

theorem chained_runChains (st : State) (tps numChains : ℤ) :
    (st.runChains tps numChains).lifecycle.chained = true ∧ (st.runChains tps numChains).Blamed := by
  rw [runChains]
  split_ifs
  · exact ⟨rfl, .of_lifecycle .running rfl (by decide)⟩
  · exact ⟨rfl, .of_lifecycle .paused rfl (by decide)⟩

theorem Blamed.setTPS (tps : ℤ) (h : st.Blamed) : (st.setTPS tps).Blamed := by
  rw [State.setTPS]
  split_ifs
  · exact .of_lifecycle .running rfl (by decide)
  · exact .of_lifecycle .paused rfl (by decide)
  · exact h

theorem Blamed.after (r : Option Record) (h : st.Blamed) : (st.after r).Blamed := by
  rcases r with _ | _ | _
  · exact h
  · rw [State.after, recordBroadcastOk, Blamed]
    dsimp only
    split_ifs with hdegraded
    · exact False.elim
    · exact fun hlife => absurd hlife hdegraded
  · rw [State.after, recordBroadcastFail, Blamed]
    dsimp only
    split_ifs with hmany
    · exact fun _ => hmany
    · exact fun hlife => (h hlife).trans (Nat.le_succ _)

end State

/-- What the record can be. -/
structure Live.Recorded (s : Live Hash) : Prop where
  chained : s.run ≠ .bootstrap → s.control.state.lifecycle.chained = true
  blamed : s.control.state.Blamed

theorem Proc.blamed_bootWrite (q q' : Proc Hash) {st : State} (h : st.Blamed) :
    (q.bootWrite q' st).Blamed := by
  rw [Proc.bootWrite]
  split_ifs
  · cases q.ctxDone with
    | true => exact .of_lifecycle .stopped rfl (by decide)
    | false => exact .of_lifecycle .failed rfl (by decide)
  · split
    · exact .of_lifecycle .bootstrapping rfl (by decide)
    · exact h

theorem Live.Recorded.step {s : Live Hash} (h : s.Recorded) (hok : LiveOK s) (e : LiveEvent Hash) :
    (s.step sdk e).Recorded := by
  have he := live_effect sdk s e
  generalize s.step sdk e = s' at he ⊢
  cases he with
  | idle | outside | newFails | startChain | configure => exact ⟨h.chained, h.blamed⟩
  | start => exact ⟨fun hr => absurd rfl hr, .of_lifecycle .starting rfl (by decide)⟩
  | setTPS tps =>
    exact ⟨fun hr => State.chained_setTPS tps (h.chained hr), h.blamed.setTPS tps⟩
  | task i e q hq =>
    exact ⟨fun hr => State.chained_after _ (h.chained hr), h.blamed.after _⟩
  | boot ok q q' hq hm =>
    exact ⟨fun hr => absurd (hok.main hr q hq) hm, Proc.blamed_bootWrite q q' h.blamed⟩
  | runChains ok q =>
    obtain ⟨hchained, hblamed⟩ := State.chained_runChains s.control.state s.control.tps q.numChains
    exact ⟨fun _ => hchained, hblamed⟩
  | stop => exact ⟨fun _ => rfl, .of_lifecycle .stopped rfl (by decide)⟩
  | returned ok q hq hm hr => exact ⟨fun _ => h.chained (by rw [hr]; nofun), h.blamed⟩

/-! ## Ready -/

theorem Readiness.ready_of_status {e : EngineCheck} {snap : Snapshot} {a : ArcadeCheck}
    (h : (readiness e snap a).status = 200) : snap.healthy = true ∧ a = .reachable := by
  rw [Readiness.status] at h
  split_ifs at h with hready
  swap
  · cases h
  simp only [readiness, Bool.and_eq_true, decide_eq_true_eq] at hready
  exact ⟨hready.1.2, hready.2⟩

theorem Snapshot.healthy_iff {snap : Snapshot} :
    snap.healthy = true ↔ (snap.lifecycle ≠ .failed ∧ snap.lifecycle ≠ .stopping ∧
      snap.lifecycle ≠ .stopped) ∧ snap.bootstrapStage = .l2Done ∧ 0 < snap.chainsActive ∧
        snap.consecutiveArcadeFailures = 0 := by
  simp only [healthy, Bool.not_eq_true', Bool.or_eq_false_iff, decide_eq_false_iff_not, not_not,
    Nat.le_zero, Nat.pos_iff_ne_zero, gt_iff_lt, ne_eq]
  tauto

theorem answer_of_reachable {parseError : Bytes → Option Bytes} {a : Arcade.Answer}
    {client : Option Arcade.Client} (h : arcadeCheck parseError a client = .reachable) :
    ∃ status body cut, a = .response status body cut ∧ status < 500 := by
  cases client with
  | none => cases h
  | some c =>
    rw [arcadeCheck] at h
    cases hreach : c.reachable parseError a with
    | some e =>
      rw [hreach] at h
      cases h
    | none =>
      rw [Arcade.Client.reachable.eq_def] at hreach
      cases hurl : parseError (c.baseURL ++ ascii "/health") with
      | some cause =>
        rw [hurl] at hreach
        cases hreach
      | none =>
        rw [hurl] at hreach
        cases a with
        | failed cause => cases hreach
        | response status body cut =>
          dsimp only at hreach
          split_ifs at hreach with hstatus
          exact ⟨status, body, cut, rfl, not_le.1 hstatus⟩

theorem snapshot_eq_some {s s' : Live Hash} {snap : Snapshot} (h : snapshot s s' = some snap) :
    ∃ q q', s.world.proc = some q ∧ s'.world.proc = some q' ∧
      snap = ⟨s.control.state.lifecycle, q.stage, q'.tasks.countP Task.active,
        s.control.state.consecutiveArcadeFailures⟩ := by
  obtain ⟨q, hq, h⟩ := Option.bind_eq_some_iff.1 h
  obtain ⟨q', hq', h⟩ := Option.bind_eq_some_iff.1 h
  exact ⟨q, q', hq, hq', (Option.some.inj h).symm⟩

theorem Live.reached (sdk : SDK Hash) (st : Store Hash) (es : List (LiveEvent Hash)) :
    LiveOK ((Live.init st).steps sdk es) ∧ ((Live.init st).steps sdk es).AllEnded ∧
      ((Live.init st).steps sdk es).Recorded :=
  Along.inv (C := fun _ _ => True) (I := fun s : Live Hash => LiveOK s ∧ s.AllEnded ∧ s.Recorded)
    (fun _ e h _ => ⟨h.1.step e, h.2.1.step h.1 e, h.2.2.step h.1 e⟩)
    (Along.of_forall fun _ _ _ => trivial)
    ⟨LiveOK.init st, nofun, fun hr => absurd rfl hr, .of_lifecycle .starting rfl (by decide)⟩

/-- **The server is ready only while chains run.** Let `/readyz` answer 200, with the record
copied at one moment of a run and the chains counted at a later one. At the first moment
the stage is `l2_done`, the counter of failures is zero, and the engine is running or
paused, or its chains have not been started yet. (The stage is written, and the counter
reset, when some of the L2 fanouts have failed, too.) At the second moment `Run` has started
chains, has not returned, and one of them runs. Arcade has answered without an error of its
own. -/
theorem ready_while_chains_run (sdk : SDK Hash) (st : Store Hash) (past es : List (LiveEvent Hash))
    {snap : Snapshot}
    (hsnap : snapshot ((Live.init st).steps sdk past) ((Live.init st).steps sdk (past ++ es)) =
      some snap)
    {parseError : Bytes → Option Bytes} {a : Arcade.Answer} {client : Option Arcade.Client}
    {stoppedUnexpected running : Bool}
    (h : (readiness (engineCheck stoppedUnexpected running) snap
      (arcadeCheck parseError a client)).status = 200) :
    (∃ q, ((Live.init st).steps sdk past).world.proc = some q ∧ q.stage = .l2Done) ∧
    ((Live.init st).steps sdk past).control.state.consecutiveArcadeFailures = 0 ∧
    (((Live.init st).steps sdk past).run = .bootstrap ∨
      ((Live.init st).steps sdk past).control.state.lifecycle = .running ∨
      ((Live.init st).steps sdk past).control.state.lifecycle = .paused) ∧
    (∃ q, ((Live.init st).steps sdk (past ++ es)).world.proc = some q ∧ q.main = .chains ∧
      ∃ t ∈ q.tasks, t.active = true) ∧
    (((Live.init st).steps sdk (past ++ es)).run = .chains ∨
      ((Live.init st).steps sdk (past ++ es)).run = .stopped) ∧
    ∃ status body cut, a = .response status body cut ∧ status < 500 := by
  obtain ⟨-, -, hrecorded⟩ := Live.reached sdk st past
  obtain ⟨hok, hended, -⟩ := Live.reached sdk st (past ++ es)
  generalize (Live.init st).steps sdk past = s at hsnap hrecorded ⊢
  generalize (Live.init st).steps sdk (past ++ es) = s' at hsnap hok hended ⊢
  obtain ⟨hhealthy, hreach⟩ := Readiness.ready_of_status h
  obtain ⟨q, q', hq, hq', rfl⟩ := snapshot_eq_some hsnap
  obtain ⟨⟨hfailed, -, hstopped⟩, hstage, hcount, hfailures⟩ := Snapshot.healthy_iff.1 hhealthy
  obtain ⟨t, ht, hactive⟩ := List.countP_pos_iff.1 hcount
  obtain ⟨hkind, hrunning⟩ : t.kind = .sustain ∧ t.ended = false := by
    simpa [Task.active] using hactive
  -- chains run after `runChains` has begun and before `Run` returns
  have hbegun : s'.run ≠ .bootstrap := fun hr => hok.kinds hr q' hq' t ht hkind
  have hreturned : s'.run ≠ .returned := by
    intro hr
    have hend := List.all_eq_true.1 (hended hr q' hq') t ht
    rw [hrunning] at hend
    cases hend
  refine ⟨⟨q, hq, hstage⟩, hfailures, ?_, ⟨q', hq', hok.main hbegun q' hq', t, ht, hactive⟩, ?_,
    answer_of_reachable hreach⟩
  · by_cases hrun : s.run = .bootstrap
    · exact .inl hrun
    · have hchained := hrecorded.chained hrun
      have hblamed := hrecorded.blamed
      dsimp only at hstopped hfailures
      cases hlife : s.control.state.lifecycle with
      | running => exact .inr (.inl rfl)
      | paused => exact .inr (.inr rfl)
      | degraded =>
        have := hblamed hlife
        rw [hfailures] at this
        cases this
      | stopped => exact absurd hlife hstopped
      | _ =>
        rw [hlife] at hchained
        cases hchained
  · cases hrun : s'.run with
    | bootstrap => exact absurd hrun hbegun
    | chains => exact .inl rfl
    | stopped => exact .inr rfl
    | returned => exact absurd hrun hreturned

open Concrete in
/-- A request while the chains are started: the record still shows `bootstrapping`. -/
theorem ready_while_chains_start :
    ∃ snap, snapshot ((Live.init twoChains).steps plainSDK (worldEvents (startup (options 5 2 1) 4)))
        ((Live.init twoChains).steps plainSDK twoChainsRunning) = some snap ∧
      snap.lifecycle = .bootstrapping ∧
      (readiness (engineCheck false true) snap (arcadeCheck (fun _ => none) (.response 200 [] false)
        (some ⟨[], 1, 1⟩))).status = 200 ∧
      ∃ q, ((Live.init twoChains).steps plainSDK twoChainsRunning).world.proc = some q ∧
        q.main = .chains ∧ ∃ t ∈ q.tasks, t.active = true := by
  have hsnap : snapshot
      ((Live.init twoChains).steps plainSDK (worldEvents (startup (options 5 2 1) 4)))
      ((Live.init twoChains).steps plainSDK twoChainsRunning) =
        some ⟨.bootstrapping, .l2Done, 2, 0⟩ := by decide +kernel
  have hstatus : (readiness (engineCheck false true) ⟨.bootstrapping, .l2Done, 2, 0⟩
      (arcadeCheck (fun _ => none) (.response 200 [] false) (some ⟨[], 1, 1⟩))).status = 200 := by
    decide +kernel
  obtain ⟨-, -, -, hchains, -⟩ := ready_while_chains_run plainSDK twoChains _ _ hsnap hstatus
  exact ⟨_, hsnap, rfl, hstatus, hchains⟩

end TxGen
