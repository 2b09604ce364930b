import TxGen.Proof.Backoff
import TxGen.Spec.Stream

/-!
# A stream stays connected, is dropped when silent, and ends when told to

* `silent_stream_is_dropped`: the watcher closes a body exactly when no line has come
  for the idle timeout since the connection was opened.
* `gauge_is_connection`: the gauge shows whether there is a connection, and a watcher
  does not outlive its own.
* `stream_returns`: after a cancellation both goroutines end, whatever the order of their
  steps, and never block.
* `reconnects_bounded`: however a server behaves, the number of connections is bounded by
  the time in units of the largest delay.
-/

namespace TxGen.Stream

open Lib

variable {sub : Subscriber} {s s' : State} {e : Event}

/-! ## What a step does -/

/-- What an event does. -/
inductive Effect (sub : Subscriber) (s : State) : Event → State → Prop
  | stay (e : Event) : Effect sub s e s
  | tick (d : ℕ) : Effect sub s (.tick d) (s.watched sub (.tick d))
  | cancel : Effect sub s .cancel { s with ctxDone := true }
  | watch (e : Watchdog.Event) (he : e.own = true) : Effect sub s (.watch e) (s.watched sub e)
  | test (h : s.pc = .head) :
      Effect sub s .next { s with pc := if s.ctxDone then .returned else .request }
  | stop (h : s.pc = .stop) :
      Effect sub s .next
        { s.watched sub .stop with pc := .wait (max (s.now - s.established) 1) }
  | closed (uptime : ℤ) (h : s.pc = .wait uptime) (hw : s.watch.pc = .returned) :
      Effect sub s .next { s with pc := .disconnected uptime, connected := false }
  | refused (h : s.pc = .request) : Effect sub s (.answer false) { s with pc := .disconnected 0 }
  | opened (h : s.pc = .request) : Effect sub s (.answer true) s.opened
  | recv (lines : List Bytes) (h : s.pc = .scan) :
      Effect sub s (.recv lines) { s with buffered := lines }
  | line (text : Bytes) (rest : List Bytes) (h : s.pc = .scan) (hb : s.buffered = text :: rest) :
      Effect sub s .line (s.scanLine sub text rest)
  | ended (h : s.pc = .scan) (hb : s.buffered = []) : Effect sub s .ended s.scanEnd
  | handled (last : Bool) (h : s.pc = .handle last) :
      Effect sub s .handled { s with pc := if last then .stop else .scan }
  | left (rand : Backoff.Rand) (uptime : ℤ) (h : s.pc = .disconnected uptime)
      (hctx : s.ctxDone = true) : Effect sub s (.disconnect rand) { s with pc := .returned }
  | reconnect (rand : Backoff.Rand) (uptime : ℤ) (h : s.pc = .disconnected uptime)
      (hctx : s.ctxDone = false) : Effect sub s (.disconnect rand) (s.reconnect sub uptime rand)
  | woken (wakeAt : ℤ) (h : s.pc = .sleep wakeAt) (hle : wakeAt ≤ s.now) :
      Effect sub s (.wake true) { s with pc := .head }
  | interrupted (wakeAt : ℤ) (h : s.pc = .sleep wakeAt) (hctx : s.ctxDone = true) :
      Effect sub s (.wake false) { s with pc := .returned }

theorem next_effect (sub : Subscriber) (s : State) : Effect sub s .next (s.nextStep sub) := by
  unfold State.nextStep
  split
  · exact .test ‹_›
  · exact .stop ‹_›
  · split_ifs with hw
    · exact .closed _ ‹_› hw
    · exact .stay _
  · exact .stay _

theorem step_effect (sub : Subscriber) (s : State) (e : Event) : Effect sub s e (s.step sub e) := by
  unfold State.step
  cases e with
  | tick d => exact .tick d
  | cancel => exact .cancel
  | next => exact next_effect sub s
  | answer ok =>
    dsimp only
    split
    · cases ok with
      | true => exact .opened ‹_›
      | false => exact .refused ‹_›
    · exact .stay _
  | recv lines =>
    dsimp only
    split
    · split_ifs
      · exact .recv lines ‹_›
      · exact .stay _
    · exact .stay _
  | line =>
    dsimp only
    split
    · exact .line _ _ ‹_› ‹_›
    · exact .stay _
  | ended =>
    dsimp only
    split
    · exact .ended ‹_› ‹_›
    · exact .stay _
  | handled =>
    dsimp only
    split
    · exact .handled _ ‹_›
    · exact .stay _
  | disconnect rand =>
    dsimp only
    split
    · split_ifs with hctx
      · exact .left rand _ ‹_› hctx
      · exact .reconnect rand _ ‹_› (by simpa using hctx)
    · exact .stay _
  | wake timer =>
    dsimp only
    split
    · cases timer with
      | true =>
        simp only [if_true]
        split_ifs with hle
        · exact .woken _ ‹_› hle
        · exact .stay _
      | false =>
        simp only [Bool.false_eq_true, if_false]
        split_ifs with hctx
        · exact .interrupted _ ‹_› hctx
        · exact .stay _
    · exact .stay _
  | watch e =>
    dsimp only
    split_ifs with he
    · exact .watch e he
    · exact .stay _

/-! ## The gauge and the watcher -/

/-- * `gauge`: it shows whether there is a connection
* `watcher`: without one there is no watcher
* `running`, `stopping`: the watcher is stopped by `stopIdle` and nothing else
* `canceled`: the loop ends only with the context -/
structure Shape (s : State) : Prop where
  gauge : s.connected = s.pc.connection
  watcher : s.pc.connection = false → s.watch.pc = .returned
  running : s.pc.connection = true → (∀ u, s.pc ≠ .wait u) → s.watch.stopped = false
  stopping : ∀ u, s.pc = .wait u → s.watch.stopped = true
  canceled : s.pc = .returned → s.ctxDone = true

theorem shape_start : Shape State.start where
  gauge := rfl
  watcher _ := rfl
  running h := by cases h
  stopping _ h := by cases h
  canceled h := by cases h

/-- A step of the watcher, or the passing of time. -/
theorem Shape.watched (h : Shape s) {e : Watchdog.Event} (he : e ≠ .stop) :
    Shape (s.watched sub e) where
  gauge := h.gauge
  watcher hc := Watchdog.step_returned (h.watcher hc) e
  running hc hw := (Watchdog.step_stopped he).trans (h.running hc hw)
  stopping u hu := (Watchdog.step_stopped he).trans (h.stopping u hu)
  canceled := h.canceled

/-- The loop goes on at another point, outside connections. -/
theorem Shape.outside (h : Shape s) {pc : Pc} (hc : s.pc.connection = false)
    (hpc : pc.connection = false) (hr : pc = .returned → s.ctxDone = true) :
    Shape { s with pc } where
  gauge := h.gauge.trans (hc.trans hpc.symm)
  watcher _ := h.watcher hc
  running hc' := by rw [hpc] at hc'; cases hc'
  stopping u hu := by rw [show pc = .wait u from hu] at hpc; cases hpc
  canceled := hr

/-- The loop goes on reading. -/
theorem Shape.reading (h : Shape s) (hc : s.pc.connection = true) (hw : ∀ u, s.pc ≠ .wait u)
    {pc : Pc} (hpc : pc.connection = true) (hw' : ∀ u, pc ≠ .wait u) (buffered : List Bytes)
    (reader : SSE.Reader) : Shape { s with pc, buffered, reader } where
  gauge := h.gauge.trans (hc.trans hpc.symm)
  watcher hc' := by rw [show pc.connection = false from hc'] at hpc; cases hpc
  running _ _ := h.running hc hw
  stopping u hu := absurd hu (hw' u)
  canceled hr := by rw [show pc = .returned from hr] at hpc; cases hpc

theorem Shape.step (h : Shape s) (e : Event) : Shape (s.step sub e) := by
  have hcon {pc : Pc} (hpc : s.pc = pc) (b : Bool) (hb : pc.connection = b) :
      s.pc.connection = b := by rw [hpc, hb]
  have hpc_ne {pc : Pc} (hpc : s.pc = pc) (hne : ∀ u, pc ≠ .wait u) : ∀ u, s.pc ≠ .wait u := by
    rw [hpc]
    exact hne
  have heff := step_effect sub s e
  generalize s.step sub e = s' at heff ⊢
  cases heff with
  | stay => exact h
  | tick d => exact h.watched Watchdog.Event.noConfusion
  | cancel => exact { h with canceled := fun _ => rfl }
  | watch e he =>
    refine h.watched fun hs => ?_
    rw [hs] at he
    cases he
  | test hpc =>
    refine h.outside (hcon hpc _ rfl) ?_ fun hr => ?_
    · split_ifs <;> rfl
    · by_contra hctx
      rw [if_neg hctx] at hr
      cases hr
  | stop hpc =>
    exact {
      gauge := h.gauge.trans (hcon hpc true rfl)
      watcher := fun hc => by cases hc
      running := fun _ hw => absurd rfl (hw _)
      stopping := fun _ _ => rfl
      canceled := fun hr => by cases hr }
  | closed uptime hpc hw =>
    exact {
      gauge := rfl
      watcher := fun _ => hw
      running := fun hc => by cases hc
      stopping := fun _ hu => by cases hu
      canceled := fun hr => by cases hr }
  | refused hpc => exact h.outside (hcon hpc _ rfl) rfl Pc.noConfusion
  | opened hpc =>
    exact {
      gauge := rfl
      watcher := fun hc => by cases hc
      running := fun _ _ => rfl
      stopping := fun _ hu => by cases hu
      canceled := fun hr => by cases hr }
  | recv lines hpc =>
    have hkeep := h.reading (hcon hpc _ rfl) (hpc_ne hpc fun _ => Pc.noConfusion)
      (hcon hpc true rfl) (hpc_ne hpc fun _ => Pc.noConfusion) lines s.reader
    exact hkeep
  | line text rest hpc hb =>
    have hw : Shape (s.watched sub .signal) := h.watched Watchdog.Event.noConfusion
    refine hw.reading (hcon hpc _ rfl) (hpc_ne hpc fun _ => Pc.noConfusion) ?_ ?_ _ _
    · split_ifs <;> rfl
    · intro u
      split_ifs <;> exact Pc.noConfusion
  | ended hpc hb =>
    refine h.reading (hcon hpc _ rfl) (hpc_ne hpc fun _ => Pc.noConfusion) ?_ ?_ s.buffered _
    · split_ifs <;> rfl
    · intro u
      split_ifs <;> exact Pc.noConfusion
  | handled last hpc =>
    refine h.reading (hcon hpc _ rfl) (hpc_ne hpc fun _ => Pc.noConfusion) ?_ ?_ s.buffered s.reader
    · split_ifs <;> rfl
    · intro u
      split_ifs <;> exact Pc.noConfusion
  | left rand uptime hpc hctx => exact h.outside (hcon hpc _ rfl) rfl fun _ => hctx
  | reconnect rand uptime hpc hctx =>
    exact {
      gauge := rfl
      watcher := fun _ => h.watcher (hcon hpc _ rfl)
      running := fun hc => by cases hc
      stopping := fun _ hu => by cases hu
      canceled := fun hr => by cases hr }
  | woken wakeAt hpc hle => exact h.outside (hcon hpc _ rfl) rfl Pc.noConfusion
  | interrupted wakeAt hpc hctx => exact h.outside (hcon hpc _ rfl) rfl fun _ => hctx

theorem shape_run (sub : Subscriber) (es : List Event) : Shape (State.start.run sub es) :=
  Along.inv (fun _ e h _ => h.step e) (Along.of_forall (C := fun _ _ => True) fun _ _ _ => trivial)
    shape_start

/-- **The gauge tells the truth.** At every moment, whatever the server does and however
the goroutines are scheduled, the gauge of the stream is set exactly while `connect` has
an answer of 200 and has not returned; without a connection there is no watcher; and the
loop ends only when its context is canceled. -/
theorem gauge_is_connection (opts : Options) (es : List Event) :
    let s := State.start.run (newSubscriber opts) es
    (s.connected = true ↔ s.pc.connection = true) ∧
      (s.pc.connection = false → s.watch.pc = .returned) ∧
        (s.pc = .returned → s.ctxDone = true) := by
  have h := shape_run (newSubscriber opts) es
  exact ⟨by rw [h.gauge], h.watcher, h.canceled⟩

/-! ## Silent streams -/

theorem idle_pos (opts : Options) : 0 < (newSubscriber opts).idleTimeout := by
  unfold newSubscriber
  dsimp only
  split_ifs
  · decide
  · omega

theorem watch_step (hidle : 0 ≤ sub.idleTimeout) (h : s.watch.Inv sub.idleTimeout)
    (hp : s.Prompt e) : (s.step sub e).watch.Inv sub.idleTimeout := by
  have heff := step_effect sub s e
  generalize s.step sub e = s' at heff ⊢
  cases heff with
  | tick d => exact h.tick hp
  | watch e he =>
    refine h.step hidle ?_
    cases e with
    | tick d => cases he
    | signal | stop | start | expire | reset | quit => trivial
  | stop => exact h.stop
  | line => exact h.signal
  | opened => exact Watchdog.inv_begin _ _
  | stay | cancel | test | closed | refused | recv | ended | handled | left | reconnect | woken
  | interrupted => exact h

theorem watch_run (hidle : 0 ≤ sub.idleTimeout) {es : List Event}
    (hes : Along (State.step sub) State.Prompt State.start es) :
    (State.start.run sub es).watch.Inv sub.idleTimeout :=
  Along.inv (I := fun s => s.watch.Inv sub.idleTimeout) (fun _ _ h hp => watch_step hidle h hp) hes
    (Watchdog.inv_absent _ _)

/-- **A silent stream is dropped, and no other.** When the watcher is scheduled promptly,
a body it has closed was neither opened nor had given a line within the idle timeout
before; and as long as a connection is read and its body not closed, the last line, or the
opening of the connection, is at most that old. -/
theorem silent_stream_is_dropped (opts : Options) (es : List Event)
    (hes : Along (State.step (newSubscriber opts)) State.Prompt State.start es) :
    let s := State.start.run (newSubscriber opts) es
    let idle := (newSubscriber opts).idleTimeout
    (∀ t₀, s.watch.fired = some t₀ → ∀ t ∈ s.watch.signals, t + idle ≤ t₀ ∨ t₀ ≤ t) ∧
      (s.pc.connection = true → (∀ u, s.pc ≠ .wait u) → s.watch.fired = none →
        ∃ t ∈ s.watch.signals, s.now ≤ t + idle) := by
  have hidle := (idle_pos opts).le
  have h := watch_run hidle hes
  refine ⟨fun t₀ ht₀ => (h.fired t₀ ht₀).2, fun hc hw hnone => ?_⟩
  exact h.not_late hidle hnone ((shape_run _ es).running hc hw)

/-- A stream that answers and then says nothing for a minute: the watcher takes the first
signal, and when its timer expires it closes the body. -/
def silentMinute : List Event :=
  [.next, .answer true, .watch .start, .watch .reset, .tick (60 * 10 ^ 9), .watch .expire]

theorem silent_minute_is_dropped :
    Along (State.step (newSubscriber ⟨0, 0, 0⟩)) State.Prompt State.start silentMinute ∧
      (State.start.run (newSubscriber ⟨0, 0, 0⟩) silentMinute).watch.fired = some (60 * 10 ^ 9) ∧
        ∀ t ∈ (State.start.run (newSubscriber ⟨0, 0, 0⟩) silentMinute).watch.signals,
          t + (newSubscriber ⟨0, 0, 0⟩).idleTimeout ≤ 60 * 10 ^ 9 ∨ 60 * 10 ^ 9 ≤ t := by
  have hprompt : Along (State.step (newSubscriber ⟨0, 0, 0⟩)) State.Prompt State.start silentMinute := by
    decide +kernel
  have hfired : (State.start.run (newSubscriber ⟨0, 0, 0⟩) silentMinute).watch.fired =
      some (60 * 10 ^ 9) := by decide +kernel
  exact ⟨hprompt, hfired, (silent_stream_is_dropped ⟨0, 0, 0⟩ silentMinute hprompt).1 _ hfired⟩

/-! ## Returning -/

/-- How far the loop is from its end once the context is canceled, with `n` lines in the
scanner's buffer. -/
def Pc.rank (n : ℕ) : Pc → ℕ
  | .handle false => 8 + 2 * n
  | .request => 8
  | .scan => 7 + 2 * n
  | .handle true => 6
  | .stop => 5
  | .wait _ => 4
  | .disconnected _ => 3
  | .sleep _ => 2
  | .head => 1
  | .returned => 0

/-- The same for both goroutines. -/
def State.rank (s : State) : ℕ := 4 * s.pc.rank s.buffered.length + s.watch.rank

/-- A step of the loop outweighs what it does to the watcher. -/
theorem rank_lt_of_pc (h : s'.pc.rank s'.buffered.length < s.pc.rank s.buffered.length) :
    s'.rank < s.rank := by
  have := s'.watch.rank_le
  unfold State.rank
  omega

theorem rank_step (hl : s.Leaving e) (hne : s.step sub e ≠ s) : (s.step sub e).rank < s.rank := by
  obtain ⟨hctx, hown⟩ := hl
  have heff := step_effect sub s e
  generalize s.step sub e = s' at heff hne ⊢
  cases heff with
  | stay => exact absurd rfl hne
  | tick d => exact hown.elim
  | cancel => exact hown.elim
  | recv lines hpc => exact hown.elim
  | watch e he =>
    have hw : s.watch.step sub.idleTimeout e ≠ s.watch := by
      intro hw
      apply hne
      rw [State.watched, hw]
    have := Watchdog.rank_step he hw
    unfold State.rank State.watched
    dsimp only
    omega
  | test hpc =>
    apply rank_lt_of_pc
    simp only [hctx, hpc, if_true, Pc.rank]
    decide
  | stop hpc =>
    apply rank_lt_of_pc
    simp only [hpc, Pc.rank]
    decide
  | closed uptime hpc hw =>
    apply rank_lt_of_pc
    simp only [hpc, Pc.rank]
    decide
  | refused hpc =>
    apply rank_lt_of_pc
    simp only [hpc, Pc.rank]
    decide
  | opened hpc =>
    apply rank_lt_of_pc
    simp only [hpc, State.opened, Pc.rank, List.length_nil]
    decide
  | line text rest hpc hb =>
    apply rank_lt_of_pc
    simp only [hpc, hb, State.scanLine, List.length_cons]
    split_ifs <;> simp only [Pc.rank] <;> omega
  | ended hpc hb =>
    apply rank_lt_of_pc
    simp only [hpc, hb, State.scanEnd, List.length_nil]
    split_ifs <;> decide
  | handled last hpc =>
    apply rank_lt_of_pc
    cases last with
    | true =>
      simp only [hpc, if_true, Pc.rank]
      decide
    | false =>
      simp only [hpc, Bool.false_eq_true, if_false, Pc.rank]
      omega
  | left rand uptime hpc hctx =>
    apply rank_lt_of_pc
    simp only [hpc, Pc.rank]
    decide
  | reconnect rand uptime hpc hgo =>
    rw [hctx] at hgo
    cases hgo
  | woken wakeAt hpc hle =>
    apply rank_lt_of_pc
    simp only [hpc, Pc.rank]
    decide
  | interrupted wakeAt hpc hctx =>
    apply rank_lt_of_pc
    simp only [hpc, Pc.rank]
    decide

/-- When neither goroutine can take a step, the loop has returned. -/
theorem returned_of_stuck (h : Shape s) (hctx : s.ctxDone = true)
    (hstuck : ∀ e, s.Leaving e → s.step sub e = s) : s.pc = .returned := by
  have hpc (e : Event) (hl : s.Leaving e) : (s.step sub e).pc = s.pc := by rw [hstuck e hl]
  cases hp : s.pc with
  | returned => rfl
  | head =>
    have := hpc .next ⟨hctx, trivial⟩
    simp [State.step, State.nextStep, hp, hctx] at this
  | request =>
    have := hpc (.answer false) ⟨hctx, trivial⟩
    simp [State.step, hp] at this
  | scan =>
    cases hb : s.buffered with
    | nil =>
      have := hpc .ended ⟨hctx, trivial⟩
      simp only [State.step, hp, hb, State.scanEnd] at this
      split_ifs at this
    | cons text rest =>
      have hrest := congrArg State.buffered (hstuck .line ⟨hctx, trivial⟩)
      simp [State.step, hp, hb, State.scanLine] at hrest
  | handle last =>
    have := hpc .handled ⟨hctx, trivial⟩
    cases last <;> simp [State.step, hp] at this
  | stop =>
    have := hpc .next ⟨hctx, trivial⟩
    simp [State.step, State.nextStep, hp] at this
  | wait uptime =>
    -- the watcher has been stopped, so it is not what the loop waits for
    have hwatch : s.watch.pc = .returned := by
      refine Watchdog.returned_of_stuck sub.idleTimeout (h.stopping uptime hp) fun e he => ?_
      have hsame := congrArg State.watch (hstuck (.watch e) ⟨hctx, trivial⟩)
      rwa [State.step, if_pos he] at hsame
    have := hpc .next ⟨hctx, trivial⟩
    simp [State.step, State.nextStep, hp, hwatch] at this
  | disconnected uptime =>
    have := hpc (.disconnect Backoff.Rand.largest) ⟨hctx, trivial⟩
    simp [State.step, hp, hctx] at this
  | sleep wakeAt =>
    have := hpc (.wake false) ⟨hctx, trivial⟩
    simp [State.step, hp, hctx] at this

/-- **Shutdown.** Once its context is canceled, wherever its two goroutines stand, they
can go on taking steps only finitely often, in whatever order, unless more is read from
the server; and when none of them can take a step any more, both have returned. -/
theorem stream_returns (opts : Options) (es : List Event)
    (hctx : (State.start.run (newSubscriber opts) es).ctxDone = true) :
    let s := State.start.run (newSubscriber opts) es
    Acc (Moves (State.step (newSubscriber opts)) State.Leaving) s ∧
      ((∀ e, s.Leaving e → s.step (newSubscriber opts) e = s) →
        s.pc = .returned ∧ s.watch.pc = .returned) := by
  have h := shape_run (newSubscriber opts) es
  refine ⟨?_, fun hstuck => ?_⟩
  · exact acc_moves (I := fun _ => True) (measure State.rank).wf (fun _ _ _ _ => trivial)
      (fun _ _ _ hl hne => rank_step hl hne) trivial
  · have hret := returned_of_stuck h hctx hstuck
    exact ⟨hret, h.watcher (by rw [hret]; rfl)⟩

/-- A context that is canceled while the stream is read. -/
theorem stream_returns_while_read :
    Acc (Moves (State.step (newSubscriber ⟨0, 0, 0⟩)) State.Leaving)
      (State.start.run (newSubscriber ⟨0, 0, 0⟩) [.next, .answer true, .recv [[]], .cancel]) :=
  (stream_returns ⟨0, 0, 0⟩ [.next, .answer true, .recv [[]], .cancel] (by decide +kernel)).1

/-! ## Reconnecting -/

section Reconnecting

variable {L : ℕ}

theorem min_pos (opts : Options) : 0 < (newSubscriber opts).reconnectMin := by
  unfold newSubscriber
  dsimp only
  split_ifs
  · decide
  · omega

theorem min_le_max (opts : Options) :
    (newSubscriber opts).reconnectMin ≤ (newSubscriber opts).reconnectMax :=
  le_max_right _ _

/-- The delays are usable: positive, in order, and with room for the jitter. -/
structure Sound (sub : Subscriber) : Prop where
  pos : 0 < sub.reconnectMin
  le : sub.reconnectMin ≤ sub.reconnectMax
  room : sub.reconnectMax + sub.reconnectMax / 2 ≤ Backoff.maxInt64

/-- The delay before the next turn. -/
def delay (sub : Subscriber) (rand : Backoff.Rand) (attempt : ℤ) : ℤ :=
  (Backoff.reconnect Backoff.wrap rand sub.reconnectMin sub.reconnectMax
    attempt).toOption.getD 0

theorem capped_le_delay (hsub : Sound sub) (rand : Backoff.Rand) {attempt : ℤ}
    (hattempt : 1 ≤ attempt) :
    Backoff.capped sub.reconnectMin sub.reconnectMax (attempt - 1).toNat ≤ delay sub rand attempt := by
  obtain ⟨hpos, hle, hroom⟩ := hsub
  have hmax := hpos.trans_le hle
  set d := Backoff.capped sub.reconnectMin sub.reconnectMax (attempt - 1).toNat
  have hd : 0 < d := Backoff.capped_pos hpos hmax _
  have hdle : d ≤ sub.reconnectMax := Backoff.capped_le _ _ _
  have hmore := rand.upTo_range (m := d / 2) (by omega)
  have hfit : Backoff.wrap (d + rand.upTo (d / 2)) = .ok (d + rand.upTo (d / 2)) :=
    Backoff.fits_wrap _ (by omega) (by omega)
  rw [delay, Backoff.reconnect_eq Backoff.fits_wrap hpos hmax (by omega) hattempt, hfit]
  change d ≤ d + rand.upTo (d / 2)
  omega

/-- From the attempt `L + 1` on the delay is the largest. -/
theorem max_le_delay (hsub : Sound sub) (hL : sub.reconnectMax ≤ sub.reconnectMin * 2 ^ L)
    (rand : Backoff.Rand) {attempt : ℤ} (hattempt : (L : ℤ) + 1 ≤ attempt) :
    sub.reconnectMax ≤ delay sub rand attempt := by
  have hpow : (2 : ℤ) ^ L ≤ 2 ^ (attempt - 1).toNat := pow_le_pow_right₀ (by decide) (by omega)
  have hle := hL.trans (mul_le_mul_of_nonneg_left hpow hsub.pos.le)
  have hcapped := capped_le_delay hsub rand (by omega : 1 ≤ attempt)
  rwa [Backoff.capped_of_le hle] at hcapped

/-- A turn that took the largest delay, connected or waiting. -/
def Pass.long (sub : Subscriber) (p : Pass) : Bool :=
  sub.reconnectMax ≤ p.uptime || sub.reconnectMax ≤ p.delay

/-- The number of long turns. -/
def longs (sub : Subscriber) (ps : List Pass) : ℕ := ps.countP (Pass.long sub)

/-- The number of turns since the last long one. -/
def shorts (sub : Subscriber) (ps : List Pass) : ℕ := (ps.takeWhile fun p => !p.long sub).length

/-- The time of the long turns, `spent`, has passed. In a connection that was so when it
was established, and its uptime comes on top. -/
def Spent (spent established now : ℤ) : Pc → Prop
  | .head | .request => spent ≤ now
  | .scan | .handle _ | .stop => spent ≤ established ∧ established ≤ now
  | .wait uptime | .disconnected uptime => spent ≤ now ∧ (uptime ≤ 1 ∨ spent + uptime ≤ now)
  | .sleep wakeAt => spent ≤ wakeAt ∨ spent ≤ now
  | .returned => True

theorem Spent.later {spent established now now' : ℤ} {pc : Pc} (h : Spent spent established now pc)
    (hnow : now ≤ now') : Spent spent established now' pc := by
  cases pc with
  | returned => trivial
  | head | request | scan | handle | stop | wait | disconnected | sleep =>
    simp only [Spent] at h ⊢
    omega

/-- * `attempt`: every turn since the last long one has raised the attempt
* `few`: after `L` attempts turns are long
* `count`: so there are at most `L` of them to each long one
* `bound`: the long ones have passed, but for the delay of the last -/
structure Paced (sub : Subscriber) (L : ℕ) (s : State) : Prop where
  attempt : (shorts sub s.passes : ℤ) ≤ s.attempt
  few : shorts sub s.passes ≤ L
  count : s.passes.length ≤ (L + 1) * longs sub s.passes + shorts sub s.passes
  spent : Spent (longs sub s.passes * sub.reconnectMax) s.established s.now s.pc
  bound : longs sub s.passes * sub.reconnectMax ≤ s.now ∨
    (shorts sub s.passes = 0 ∧
      longs sub s.passes * sub.reconnectMax ≤ s.now + sub.reconnectMax)

theorem paced_start (sub : Subscriber) (L : ℕ) : Paced sub L State.start := by
  refine ⟨?_, Nat.zero_le L, Nat.zero_le _, ?_, Or.inl ?_⟩
  all_goals simp [State.start, shorts, longs, Spent, State.now, Watchdog.absent]

/-- A step that ends no turn. -/
theorem Paced.keep (h : Paced sub L s) (hpasses : s'.passes = s.passes)
    (hattempt : s'.attempt = s.attempt) (hnow : s.now ≤ s'.now)
    (hspent : Spent (longs sub s.passes * sub.reconnectMax) s'.established s'.now s'.pc) :
    Paced sub L s' := by
  constructor
  · rw [hpasses, hattempt]
    exact h.attempt
  · rw [hpasses]
    exact h.few
  · rw [hpasses]
    exact h.count
  · rwa [hpasses]
  · rw [hpasses]
    have := h.bound
    omega

/-- The counts after a turn. -/
theorem longs_cons (p : Pass) (ps : List Pass) :
    longs sub (p :: ps) = longs sub ps + if p.long sub then 1 else 0 := List.countP_cons

theorem shorts_cons (p : Pass) (ps : List Pass) :
    shorts sub (p :: ps) = if p.long sub then 0 else shorts sub ps + 1 := by
  unfold shorts
  cases h : p.long sub <;> simp [h]

/-- The end of a turn. -/
theorem Paced.reconnect (hsub : Sound sub) (hL : sub.reconnectMax ≤ sub.reconnectMin * 2 ^ L)
    (h : Paced sub L s) {uptime : ℤ} (hpc : s.pc = .disconnected uptime) (rand : Backoff.Rand) :
    Paced sub L (s.reconnect sub uptime rand) := by
  have hspent := h.spent
  simp only [Spent, hpc] at hspent
  have hshorts := h.attempt
  have hcount := h.count
  set attempt := (if uptime ≥ sub.reconnectMax then 0 else s.attempt) + 1 with hattempt
  have hone : 1 ≤ attempt := by
    rw [hattempt]
    split_ifs <;> omega
  -- the largest delay is at least one nanosecond, and no shorter than the first
  have hdelay : 1 ≤ sub.reconnectMax ∧ (sub.reconnectMax ≤ 1 → sub.reconnectMax ≤ delay sub rand attempt) := by
    have hpos := hsub.pos
    have hle := hsub.le
    refine ⟨by omega, fun hmax => ?_⟩
    have hcapped := capped_le_delay hsub rand hone
    have := Backoff.capped_pos hpos (hpos.trans_le hle) (attempt - 1).toNat
    omega
  by_cases hlong : (Pass.mk uptime (delay sub rand attempt)).long sub = true
  · have hlongs : longs sub (s.reconnect sub uptime rand).passes = longs sub s.passes + 1 := by
      rw [show (s.reconnect sub uptime rand).passes = ⟨uptime, delay sub rand attempt⟩ :: s.passes
        from rfl, longs_cons, if_pos hlong]
    have hnone : shorts sub (s.reconnect sub uptime rand).passes = 0 := by
      rw [show (s.reconnect sub uptime rand).passes = ⟨uptime, delay sub rand attempt⟩ :: s.passes
        from rfl, shorts_cons, if_pos hlong]
    have hone' : 1 ≤ (s.reconnect sub uptime rand).attempt := hone
    simp only [Pass.long, Bool.or_eq_true, decide_eq_true_eq] at hlong
    constructor
    · rw [hnone]
      omega
    · rw [hnone]
      exact Nat.zero_le L
    · rw [hnone, hlongs, show (s.reconnect sub uptime rand).passes.length = s.passes.length + 1 from rfl,
        Nat.mul_add]
      have := h.few
      omega
    · rw [hlongs]
      show _ ≤ s.now + delay sub rand attempt ∨ _ ≤ s.now
      push_cast
      rw [add_mul, one_mul]
      omega
    · right
      refine ⟨hnone, ?_⟩
      rw [hlongs]
      show _ ≤ s.now + sub.reconnectMax
      push_cast
      rw [add_mul, one_mul]
      omega
  · have hlongs : longs sub (s.reconnect sub uptime rand).passes = longs sub s.passes := by
      rw [show (s.reconnect sub uptime rand).passes = ⟨uptime, delay sub rand attempt⟩ :: s.passes
        from rfl, longs_cons, if_neg hlong, Nat.add_zero]
    have hmore : shorts sub (s.reconnect sub uptime rand).passes =
        shorts sub s.passes + 1 := by
      rw [show (s.reconnect sub uptime rand).passes = ⟨uptime, delay sub rand attempt⟩ :: s.passes
        from rfl, shorts_cons, if_neg hlong]
    simp only [Pass.long, Bool.or_eq_true, decide_eq_true_eq, not_or] at hlong
    have hnext : attempt = s.attempt + 1 := by
      rw [hattempt, if_neg hlong.1]
    -- the delay is not the largest yet
    have hfew : attempt ≤ L := by
      by_contra hmany
      exact hlong.2 (max_le_delay hsub hL rand (by omega))
    constructor
    · rw [hmore, show (s.reconnect sub uptime rand).attempt = attempt from rfl]
      push_cast
      omega
    · rw [hmore]
      omega
    · rw [hmore, hlongs, show (s.reconnect sub uptime rand).passes.length = s.passes.length + 1 from rfl]
      omega
    · rw [hlongs]
      exact Or.inr hspent.1
    · left
      rw [hlongs]
      exact hspent.1

theorem Paced.step (hsub : Sound sub) (hL : sub.reconnectMax ≤ sub.reconnectMin * 2 ^ L)
    (h : Paced sub L s) (e : Event) : Paced sub L (s.step sub e) := by
  have hspent := h.spent
  have heff := step_effect sub s e
  generalize s.step sub e = s' at heff ⊢
  cases heff with
  | stay => exact h
  | tick d =>
    have hnow : s.now ≤ (s.watched sub (.tick d)).now := Int.le_add_of_nonneg_right (Int.natCast_nonneg d)
    exact h.keep rfl rfl hnow (hspent.later hnow)
  | cancel => exact h.keep rfl rfl le_rfl hspent
  | watch e he =>
    have hnow : s.now ≤ (s.watched sub e).now := (Watchdog.step_now he).ge
    exact h.keep rfl rfl hnow (hspent.later hnow)
  | test hpc =>
    refine h.keep rfl rfl le_rfl ?_
    simp only [Spent, hpc] at hspent
    dsimp only
    split_ifs
    · trivial
    · exact hspent
  | stop hpc =>
    refine h.keep rfl rfl le_rfl ?_
    simp only [Spent, hpc] at hspent
    show _ ≤ s.now ∧ (_ ∨ _ ≤ s.now)
    omega
  | closed uptime hpc hw =>
    refine h.keep rfl rfl le_rfl ?_
    rw [hpc] at hspent
    exact hspent
  | refused hpc =>
    refine h.keep rfl rfl le_rfl ?_
    simp only [Spent, hpc] at hspent
    exact ⟨hspent, Or.inl (by decide)⟩
  | opened hpc =>
    refine h.keep rfl rfl le_rfl ?_
    simp only [Spent, hpc] at hspent
    exact ⟨hspent, le_rfl⟩
  | recv lines hpc => exact h.keep rfl rfl le_rfl hspent
  | line text rest hpc hb =>
    refine h.keep rfl rfl le_rfl ?_
    simp only [Spent, hpc] at hspent
    unfold State.scanLine
    dsimp only
    split_ifs <;> exact hspent
  | ended hpc hb =>
    refine h.keep rfl rfl le_rfl ?_
    simp only [Spent, hpc] at hspent
    unfold State.scanEnd
    dsimp only
    split_ifs <;> exact hspent
  | handled last hpc =>
    refine h.keep rfl rfl le_rfl ?_
    simp only [Spent, hpc] at hspent
    dsimp only
    split_ifs <;> exact hspent
  | left rand uptime hpc hctx => exact h.keep rfl rfl le_rfl trivial
  | reconnect rand uptime hpc hctx => exact h.reconnect hsub hL hpc rand
  | woken wakeAt hpc hle =>
    refine h.keep rfl rfl le_rfl ?_
    simp only [Spent, hpc] at hspent
    show _ ≤ s.now
    omega
  | interrupted wakeAt hpc hctx => exact h.keep rfl rfl le_rfl trivial

/-- **A server is not hammered.** Whatever a server does, refuse, accept and close at
once, or serve for a while, the loop has made at most `L + 1` turns for each time the
largest delay fits into the time it has run, and once more, where `L` doublings lead from
the first delay to the largest. One and a half times the largest delay has to be a
`time.Duration`; with more, a random addition to it may wrap, and the loop goes on at once. -/
theorem reconnects_bounded (opts : Options) (L : ℕ) (es : List Event)
    (hroom : (newSubscriber opts).reconnectMax + (newSubscriber opts).reconnectMax / 2 ≤
      Backoff.maxInt64)
    (hL : (newSubscriber opts).reconnectMax ≤ (newSubscriber opts).reconnectMin * 2 ^ L) :
    let s := State.start.run (newSubscriber opts) es
    (s.passes.length : ℤ) ≤ (L + 1) * (s.now / (newSubscriber opts).reconnectMax + 1) := by
  set sub := newSubscriber opts
  have hsub : Sound sub := ⟨min_pos opts, min_le_max opts, hroom⟩
  have hpos : 0 < sub.reconnectMax := hsub.pos.trans_le hsub.le
  have h : Paced sub L (State.start.run sub es) :=
    Along.inv (fun _ e h _ => h.step hsub hL e)
      (Along.of_forall (C := fun _ _ => True) fun _ _ _ => trivial) (paced_start sub L)
  intro s
  change Paced sub L s at h
  have hcount : (s.passes.length : ℤ) ≤ (L + 1) * longs sub s.passes + shorts sub s.passes := by
    exact_mod_cast h.count
  have hshorts : (shorts sub s.passes : ℤ) ≤ L := by exact_mod_cast h.few
  rcases h.bound with hpast | ⟨hnone, hpast⟩
  · have hlongs : (longs sub s.passes : ℤ) ≤ s.now / sub.reconnectMax :=
      (Int.le_ediv_iff_mul_le hpos).2 hpast
    have := mul_le_mul_of_nonneg_left hlongs (show (0 : ℤ) ≤ L + 1 by omega)
    rw [mul_add]
    omega
  · have hlongs : (longs sub s.passes : ℤ) ≤ s.now / sub.reconnectMax + 1 := by
      rw [← Int.add_mul_ediv_right _ _ hpos.ne', one_mul]
      exact (Int.le_ediv_iff_mul_le hpos).2 hpast
    have := mul_le_mul_of_nonneg_left hlongs (show (0 : ℤ) ≤ L + 1 by omega)
    omega

/-- A server that refuses twice, with the longest delay in between. -/
def refusedTwice : List Event :=
  [.next, .answer false, .disconnect Backoff.Rand.largest, .tick (15 * 10 ^ 8), .wake true, .next,
    .answer false, .disconnect Backoff.Rand.largest]

/-- With the defaults five doublings lead from one second to thirty. -/
theorem reconnects_bounded_default :
    (State.start.run (newSubscriber ⟨0, 0, 0⟩) refusedTwice).passes.length = 2 ∧
      ((State.start.run (newSubscriber ⟨0, 0, 0⟩) refusedTwice).passes.length : ℤ) ≤
        (5 + 1) * ((State.start.run (newSubscriber ⟨0, 0, 0⟩) refusedTwice).now /
          (newSubscriber ⟨0, 0, 0⟩).reconnectMax + 1) :=
  ⟨by decide +kernel, reconnects_bounded ⟨0, 0, 0⟩ 5 refusedTwice (by decide) (by decide)⟩

end Reconnecting

end TxGen.Stream
