import TxGen.Lib.Slots
import TxGen.Spec.Shutdown

/-!
# Shutting down is orderly

* `store_is_closed_last`: the state file is closed after everything that uses it has
  ended, unless draining took too long or the engine panicked.
* `run_returns_in_time`: once the context is canceled `Run` returns within 35 seconds and
  the time that closing the state file waits for transactions, whatever the other
  goroutines do.
* `listen_error_is_returned`: `Run` returns nil only when the process was signaled, and a
  server that fails is reported.
* `stopped_server_takes_no_request`: no request is taken after the server was stopped; a
  server that had not been registered by then is never stopped.
-/

namespace TxGen.Shutdown

open Lib

/-! ## What an event does -/

/-- The effect of an event. -/
inductive Effect (s : State) : Event → State → Prop
  | idle (e : Event) : Effect s e s
  | tick (d : ℕ) :
    Effect s (.tick d) { s with now := s.now + d, held := if s.blocked then s.held + d else s.held }
  | signal : Effect s .signal { s.cancel with signaled := true }
  | leave (h : s.main = .serving) (hc : s.canceled = true) :
    Effect s .next { s with main := .stopping }
  | shut (h : s.main = .stopping) (hreg : s.httpServer = true) :
    Effect s .next { s with main := .closing s.now, inShutdown := true }
  | miss (h : s.main = .stopping) (hreg : s.httpServer = false) :
    Effect s .next { s with main := .draining s.now, waiter := .waiting, missed := true }
  | closed {e : Event} {begun : ℤ} (h : s.main = .closing begun) :
    Effect s e { s with main := .draining s.now, waiter := .waiting }
  | done {begun : ℤ} (h : s.main = .draining begun) (hw : s.waiter = .closed) :
    Effect s .next { s with main := .result }
  | expire {begun : ℤ} (h : s.main = .draining begun) (hlate : begun + drainTimeout ≤ s.now) :
    Effect s .timeout { s with main := .result, timedOut := true }
  | result (h : s.main = .result) :
    Effect s .next { s with main := .deferred s.serveErr, serveErr := false }
  | close {err : Bool} (h : s.main = .deferred err) (hnone : s.transactions = 0) :
    Effect s .next { s with main := .returned err, storeOpen := false }
  | wait (h : s.waiter = .waiting) (hd : s.drained = true) :
    Effect s .wait { s with waiter := .closed }
  | start (h : s.engine = .fresh) :
    Effect s .engineNext { s with engine := .running, engineRunning := true }
  | finish (h : s.engine = .running) (hnone : s.transactions = 0) :
    Effect s .engineNext { s with engine := .finished }
  | check (h : s.engine = .finished) :
    Effect s .engineNext { s with engine := .marking (!s.canceled) }
  | clear {unexpected : Bool} (h : s.engine = .marking unexpected) :
    Effect s .engineNext { s with engine := .marked unexpected, engineRunning := false }
  | flag {unexpected : Bool} (h : s.engine = .marked unexpected) :
    Effect s .engineNext
      { s with
        engine := .ended
        engineStoppedUnexpected := s.engineStoppedUnexpected || unexpected }
  | begin (hopen : s.storeOpen = true) :
    Effect s .engineUse { s with transactions := s.transactions + 1 }
  | use (h : s.engine = .running ∨ s.panicked) (hclosed : s.storeOpen = false) :
    Effect s .engineUse { s with lateUses := s.lateUses + 1 }
  | commit : Effect s .engineDone { s with transactions := s.transactions - 1 }
  | panic (h : s.engine = .running) :
    Effect s .enginePanic { s with engine := .ended, panicked := true }
  | register (ok : Bool) (h : s.http = .fresh) :
    Effect s (.httpNext ok) { s with http := .registered, httpServer := true }
  | refuse (ok : Bool) (h : s.http = .registered ∨ s.http = .serving) (hin : s.inShutdown = true) :
    Effect s (.httpNext ok) { s with http := .ended }
  | listen (h : s.http = .registered) (hin : s.inShutdown = false) :
    Effect s (.httpNext true) { s with http := .serving }
  | fail {e : Event} (h : s.http = .registered ∨ s.http = .serving) (hin : s.inShutdown = false) :
    Effect s e { s with http := .failed, listenFailed := true }
  | report (ok : Bool) (h : s.http = .failed) :
    Effect s (.httpNext ok) { s with http := .reported, serveErr := true }
  | cancel (ok : Bool) (h : s.http = .reported) :
    Effect s (.httpNext ok) { s.cancel with http := .ended }
  | stream (i : ℕ) : Effect s (.stream i) { s with streams := s.streams.set i false }
  | request (h : s.http = .serving) (hin : s.inShutdown = false) :
    Effect s .request
      { s with
        requests := s.requests + 1
        lateRequests :=
          if s.main = .serving ∨ s.main = .stopping then s.lateRequests else s.lateRequests + 1 }
  | response : Effect s .response { s with requests := s.requests - 1 }

theorem step_effect (s : State) (e : Event) : Effect s e (s.step e) := by
  cases e with
  | tick d => exact .tick d
  | signal => exact .signal
  | next =>
    simp only [State.step, State.next]
    split
    case h_1 h =>
      split_ifs with hc
      · exact .leave h hc
      · exact .idle _
    case h_2 h =>
      split_ifs with hreg
      · exact .shut h hreg
      · exact .miss h (Bool.not_eq_true _ ▸ hreg)
    case h_3 begun h =>
      split_ifs
      · exact .closed h
      · exact .idle _
    case h_4 begun h =>
      split_ifs with hw
      · exact .done h hw
      · exact .idle _
    case h_5 h => exact .result h
    case h_6 err h =>
      split_ifs with hnone
      · exact .close h hnone
      · exact .idle _
    case h_7 => exact .idle _
  | timeout =>
    simp only [State.step, State.timeout]
    split
    case h_1 begun h =>
      split_ifs
      · exact .closed h
      · exact .idle _
    case h_2 begun h =>
      split_ifs with hlate
      · exact .expire h hlate
      · exact .idle _
    case h_3 => exact .idle _
  | wait =>
    simp only [State.step]
    split_ifs with h
    · exact .wait h.1 h.2
    · exact .idle _
  | engineNext =>
    simp only [State.step, State.engineNext]
    split
    case h_1 h => exact .start h
    case h_2 h =>
      split_ifs with hnone
      · exact .finish h hnone
      · exact .idle _
    case h_3 h => exact .check h
    case h_4 unexpected h => exact .clear h
    case h_5 unexpected h => exact .flag h
    case h_6 => exact .idle _
  | engineUse =>
    simp only [State.step]
    split_ifs with h hopen
    · exact .begin hopen
    · exact .use h (Bool.not_eq_true _ ▸ hopen)
    · exact .idle _
  | engineDone => exact .commit
  | enginePanic =>
    simp only [State.step]
    split_ifs with h
    · exact .panic h
    · exact .idle _
  | httpNext ok =>
    simp only [State.step, State.httpNext]
    split
    case h_1 h => exact .register ok h
    case h_2 h =>
      split_ifs with hin hok
      · exact .refuse ok (.inl h) hin
      · subst hok
        exact .listen h (Bool.not_eq_true _ ▸ hin)
      · exact .fail (.inl h) (Bool.not_eq_true _ ▸ hin)
    case h_3 h =>
      split_ifs with hin
      · exact .refuse ok (.inr h) hin
      · exact .idle _
    case h_4 h => exact .report ok h
    case h_5 h => exact .cancel ok h
    case h_6 => exact .idle _
  | httpError =>
    simp only [State.step]
    split_ifs with h
    · exact .fail (.inr h.1) (Bool.not_eq_true _ ▸ h.2)
    · exact .idle _
  | stream i => exact .stream i
  | request =>
    simp only [State.step]
    split_ifs with h hmain
    · have heff := Effect.request h.1 (Bool.not_eq_true _ ▸ h.2)
      rwa [if_pos hmain] at heff
    · have heff := Effect.request h.1 (Bool.not_eq_true _ ▸ h.2)
      rwa [if_neg hmain] at heff
    · exact .idle _
  | response => exact .response

/-- An invariant of single events holds after every run. -/
theorem run_inv {I : State → Prop} (hstep : ∀ {s s' : State} {e : Event}, I s → Effect s e s' → I s')
    {k : ℕ} (h0 : I (State.launched k)) (es : List Event) : I ((State.launched k).run es) :=
  Along.inv (C := fun _ _ => True) (fun s e h _ => hstep h (step_effect s e))
    (Along.of_forall fun _ _ _ => trivial) h0

/-- `Run` is past its shutdown. -/
def Main.over : Main → Bool
  | .result | .deferred _ | .returned _ => true
  | _ => false

/-! ## The state file is closed last -/

/-- What draining is for. -/
structure Drain (s : State) : Prop where
  closed : s.waiter = .closed → s.engine = .ended ∧ s.http = .ended ∧ ∀ b ∈ s.streams, b = false
  waited : s.main.over → s.timedOut ∨ s.waiter = .closed
  store : s.storeOpen = false → s.main.over
  uses : 0 < s.lateUses → s.timedOut ∨ s.panicked

theorem drained_iff {s : State} :
    s.drained = true ↔ s.engine = .ended ∧ s.http = .ended ∧ ∀ b ∈ s.streams, b = false :=
  decide_eq_true_iff

namespace Drain

variable {s : State}

theorem launched (k : ℕ) : Drain (State.launched k) where
  closed h := nomatch h
  waited h := nomatch h
  store h := nomatch h
  uses h := nomatch h

/-- While some goroutine of the wait group runs, its end has not been seen. -/
theorem not_closed (h : Drain s) (hrun : s.engine ≠ .ended ∨ s.http ≠ .ended) :
    s.waiter ≠ .closed := by
  intro hw
  obtain ⟨hengine, hhttp, -⟩ := h.closed hw
  exact hrun.elim (· hengine) (· hhttp)

theorem step {s' : State} {e : Event} (h : Drain s) (heff : Effect s e s') : Drain s' := by
  obtain ⟨hclosed, hover, hstore, huses⟩ := id h
  cases heff with
  | leave hmain | shut hmain =>
    rw [hmain] at hstore
    exact ⟨hclosed, nofun, fun hs => absurd (hstore hs) nofun, huses⟩
  | miss hmain | closed hmain =>
    rw [hmain] at hstore
    exact ⟨nofun, nofun, fun hs => absurd (hstore hs) nofun, huses⟩
  | done hmain hw => exact ⟨hclosed, fun _ => .inr hw, fun _ => rfl, huses⟩
  | expire hmain => exact ⟨hclosed, fun _ => .inl rfl, fun _ => rfl, fun _ => .inl rfl⟩
  | result hmain | close hmain =>
    rw [hmain] at hover
    exact ⟨hclosed, fun _ => hover rfl, fun _ => rfl, huses⟩
  | wait hw hd => exact ⟨fun _ => drained_iff.1 hd, fun _ => .inr rfl, hstore, huses⟩
  | start hengine | finish hengine | check hengine | clear hengine | flag hengine =>
    have hne := h.not_closed (.inl (by rw [hengine]; nofun))
    exact ⟨fun hw => absurd hw hne, hover, hstore, huses⟩
  | panic hengine =>
    have hne := h.not_closed (.inl (by rw [hengine]; nofun))
    exact ⟨fun hw => absurd hw hne, hover, hstore, fun _ => .inr rfl⟩
  | use hrun hs =>
    refine ⟨hclosed, hover, hstore, fun _ => ?_⟩
    -- the store is closed, so draining is over: it was not for the engine's end
    rcases hrun with hengine | hpanic
    · have hne := h.not_closed (.inl (by rw [hengine]; nofun))
      exact .inl ((hover (hstore hs)).resolve_right hne)
    · exact .inr hpanic
  | register ok hhttp | listen hhttp | report ok hhttp | cancel ok hhttp =>
    have hne := h.not_closed (.inr (by rw [hhttp]; nofun))
    exact ⟨fun hw => absurd hw hne, hover, hstore, huses⟩
  | refuse ok hhttp | fail hhttp =>
    have hne := h.not_closed (.inr (by rcases hhttp with hh | hh <;> rw [hh] <;> nofun))
    exact ⟨fun hw => absurd hw hne, hover, hstore, huses⟩
  | stream i =>
    refine ⟨fun hw => ?_, hover, hstore, huses⟩
    obtain ⟨hengine, hhttp, hstreams⟩ := hclosed hw
    exact ⟨hengine, hhttp, forall_set hstreams rfl⟩
  | idle | tick | signal | request | response | begin | commit =>
    exact ⟨hclosed, hover, hstore, huses⟩

end Drain

/-- **The state file is closed last.** When it is closed all goroutines have ended, or
draining has timed out; and it is never used after that, unless draining has timed out or
the engine has panicked. -/
theorem store_is_closed_last (k : ℕ) (es : List Event) :
    (((State.launched k).run es).storeOpen = false →
      ((State.launched k).run es).timedOut ∨ ((State.launched k).run es).drained) ∧
    (0 < ((State.launched k).run es).lateUses →
      ((State.launched k).run es).timedOut ∨ ((State.launched k).run es).panicked) := by
  have h := run_inv Drain.step (Drain.launched k) es
  refine ⟨fun hs => ?_, h.uses⟩
  exact (h.waited (h.store hs)).imp_right fun hw => drained_iff.2 (h.closed hw)

/-! ## The error that is returned -/

/-- The error that `Run` has taken. -/
def Main.err : Main → Bool
  | .deferred err | .returned err => err
  | _ => false

/-- `Run` has looked for an error. -/
def Main.looked : Main → Bool
  | .deferred _ | .returned _ => true
  | _ => false

/-- Where errors and cancellations come from. -/
structure Cause (s : State) : Prop where
  canceled : s.canceled → s.signaled ∨ s.serveErr ∨ s.main.err
  reported : s.http = .reported → s.serveErr ∨ s.main.err
  failed : s.http = .failed ∨ s.http = .reported ∨ s.serveErr ∨ s.main.err → s.listenFailed
  leaving : s.main ≠ .serving → s.canceled
  nil : s.main.looked → s.main.err = false → s.signaled
  taken : s.main.looked → s.serveErr = false ∨ s.timedOut
  lost : s.listenFailed → s.http = .failed ∨ s.serveErr ∨ s.main.err ∨ s.timedOut

namespace Cause

variable {s s' : State} {e : Event}

theorem launched (k : ℕ) : Cause (State.launched k) where
  canceled h := nomatch h
  reported h := nomatch h
  failed h := by rcases h with h | h | h | h <;> cases h
  leaving h := absurd rfl h
  nil h := nomatch h
  taken h := nomatch h
  lost h := nomatch h

theorem step (h : Cause s) (hd : Drain s) (heff : Effect s e s') : Cause s' := by
  obtain ⟨hcanceled, hreported, hfailed, hleaving, hnil, htaken, hlost⟩ := id h
  cases heff with
  | leave hmain hc =>
    rw [hmain] at hcanceled hreported hfailed hlost
    exact ⟨hcanceled, hreported, hfailed, fun _ => hc, nofun, nofun, hlost⟩
  | shut hmain | miss hmain | closed hmain | done hmain =>
    have hc := hleaving (by rw [hmain]; nofun)
    rw [hmain] at hcanceled hreported hfailed hlost
    exact ⟨hcanceled, hreported, hfailed, fun _ => hc, nofun, nofun, hlost⟩
  | expire hmain =>
    have hc := hleaving (by rw [hmain]; nofun)
    rw [hmain] at hcanceled hreported hfailed
    exact ⟨hcanceled, hreported, hfailed, fun _ => hc, nofun, nofun,
      fun _ => .inr (.inr (.inr rfl))⟩
  | result hmain =>
    have hc := hleaving (by rw [hmain]; nofun)
    -- what was in the channel is now with `Run`
    simp only [hmain, Main.err, Bool.false_eq_true, or_false, false_or] at hcanceled hreported hfailed hlost
    refine ⟨fun _ => (hcanceled hc).imp_right .inr, fun hr => .inr (hreported hr), ?_, fun _ => hc,
      fun _ hnone => ?_, fun _ => .inl rfl, fun hl => ?_⟩
    · rintro (hf | hr | hs | he)
      · exact hfailed (.inl hf)
      · exact hfailed (.inr (.inl hr))
      · cases hs
      · exact hfailed (.inr (.inr he))
    · have hs : s.serveErr = false := hnone
      exact (hcanceled hc).resolve_right (by rw [hs]; nofun)
    · rcases hlost hl with hf | hs | ht
      · exact .inl hf
      · exact .inr (.inr (.inl hs))
      · exact .inr (.inr (.inr ht))
  | close hmain =>
    have hc := hleaving (by rw [hmain]; nofun)
    rw [hmain] at hcanceled hreported hfailed hlost hnil htaken
    exact ⟨hcanceled, hreported, hfailed, fun _ => hc, fun _ => hnil rfl, fun _ => htaken rfl, hlost⟩
  | signal =>
    exact ⟨fun _ => .inl rfl, hreported, hfailed, fun _ => rfl, fun _ _ => rfl, htaken, hlost⟩
  | register ok hhttp | listen hhttp =>
    rw [hhttp] at hlost
    refine ⟨hcanceled, nofun, ?_, hleaving, hnil, htaken, fun hl => .inr ((hlost hl).resolve_left nofun)⟩
    rintro (hf | hr | hs)
    · cases hf
    · cases hr
    · exact hfailed (.inr (.inr hs))
  | refuse ok hhttp =>
    have hne : s.http ≠ .failed := by rcases hhttp with hh | hh <;> rw [hh] <;> nofun
    refine ⟨hcanceled, nofun, ?_, hleaving, hnil, htaken, fun hl => .inr ((hlost hl).resolve_left hne)⟩
    rintro (hf | hr | hs)
    · cases hf
    · cases hr
    · exact hfailed (.inr (.inr hs))
  | fail hhttp =>
    exact ⟨hcanceled, nofun, fun _ => rfl, hleaving, hnil, htaken, fun _ => .inl rfl⟩
  | report ok hhttp =>
    have hl := hfailed (.inl hhttp)
    refine ⟨fun _ => .inr (.inl rfl), fun _ => .inl rfl, fun _ => hl, hleaving, hnil, fun hm => ?_,
      fun _ => .inr (.inl rfl)⟩
    -- a server that is still at work has not been waited for
    have hne := hd.not_closed (.inr (by rw [hhttp]; nofun))
    refine .inr ((hd.waited ?_).resolve_right hne)
    revert hm
    cases s.main <;> simp [Main.looked, Main.over]
  | cancel ok hhttp =>
    have hs := hreported hhttp
    have hl := hfailed (.inr (.inr hs))
    exact ⟨fun _ => .inr hs, nofun, fun _ => hl, fun _ => rfl, hnil, htaken,
      fun _ => .inr (hs.imp_right .inl)⟩
  | _ => exact ⟨hcanceled, hreported, hfailed, hleaving, hnil, htaken, hlost⟩

end Cause

/-- **Errors of the server are returned, and nothing else is.** `Run` returns nil only
after a signal and an error only when the server has failed. When all goroutines have
ended in time, it does return the error of a server that has failed. -/
theorem listen_error_is_returned {k : ℕ} {es : List Event} {err : Bool}
    (h : ((State.launched k).run es).main = .returned err) :
    (err = false → ((State.launched k).run es).signaled) ∧
    (err = true → ((State.launched k).run es).listenFailed) ∧
    (((State.launched k).run es).timedOut = false →
      ((State.launched k).run es).listenFailed → err = true) := by
  obtain ⟨hd, hc⟩ := run_inv (I := fun s => Drain s ∧ Cause s)
    (fun h heff => ⟨h.1.step heff, h.2.step h.1 heff⟩) ⟨Drain.launched k, Cause.launched k⟩ es
  have hnil := hc.nil
  have hfailed := hc.failed
  have htaken := hc.taken
  have hlost := hc.lost
  have hover := hd.waited
  rw [h] at hnil hfailed htaken hlost hover
  refine ⟨fun herr => hnil rfl herr, fun herr => hfailed (.inr (.inr (.inr herr))), fun ht hl => ?_⟩
  rw [ht] at hlost hover htaken
  have hend := (hd.closed ((hover rfl).resolve_left nofun)).2.1
  rcases hlost hl with hf | hs | he | ht
  · rw [hend] at hf
    cases hf
  · rw [(htaken rfl).resolve_right nofun] at hs
    cases hs
  · exact he
  · cases ht

/-- The port is taken: the server's error cancels the context and is returned. -/
def portTaken : List Event :=
  [.httpNext true, .engineNext, .httpNext false, .httpNext false, .httpNext false, .next, .next,
    .engineNext, .next, .stream 0, .engineNext, .engineNext, .stream 1, .engineNext, .wait, .next,
    .next, .next]

theorem listen_error_is_returned_portTaken :
    ((State.launched 2).run portTaken).main = .returned true ∧
      ((State.launched 2).run portTaken).signaled = false ∧
      ((State.launched 2).run portTaken).listenFailed = true := by
  have hmain : ((State.launched 2).run portTaken).main = .returned true := by decide +kernel
  exact ⟨hmain, by decide +kernel, (listen_error_is_returned hmain).2.1 rfl⟩

/-! ## No request is taken after the server was stopped -/

/-- `Run` has not yet stopped the server. -/
def Main.before : Main → Bool
  | .serving | .stopping => true
  | _ => false

/-- What stopping the server is for. -/
structure Stopped (s : State) : Prop where
  before : s.main.before → s.inShutdown = false ∧ s.missed = false
  after : s.main.before = false → s.inShutdown ∨ s.missed
  missed : s.missed → s.inShutdown = false
  late : 0 < s.lateRequests → s.missed
  ended : s.http = .ended → s.inShutdown ∨ s.listenFailed

namespace Stopped

variable {s s' : State} {e : Event}

theorem launched (k : ℕ) : Stopped (State.launched k) where
  before _ := ⟨rfl, rfl⟩
  after h := nomatch h
  missed h := nomatch h
  late h := nomatch h
  ended h := nomatch h

theorem step (h : Stopped s) (hc : Cause s) (heff : Effect s e s') : Stopped s' := by
  obtain ⟨hbefore, hafter, hmissed, hlate, hended⟩ := id h
  cases heff with
  | leave hmain =>
    rw [hmain] at hbefore
    exact ⟨fun _ => hbefore rfl, nofun, hmissed, hlate, hended⟩
  | shut hmain =>
    rw [hmain] at hbefore
    have hnot : s.missed = false := (hbefore rfl).2
    exact ⟨nofun, fun _ => .inl rfl, fun hm => absurd hm (by rw [hnot]; nofun), hlate,
      fun _ => .inl rfl⟩
  | miss hmain =>
    rw [hmain] at hbefore
    exact ⟨nofun, fun _ => .inr rfl, fun _ => (hbefore rfl).1, fun _ => rfl, hended⟩
  | closed hmain | done hmain | expire hmain | result hmain | close hmain =>
    rw [hmain] at hafter
    exact ⟨nofun, fun _ => hafter rfl, hmissed, hlate, hended⟩
  | request hhttp hin =>
    refine ⟨hbefore, hafter, hmissed, fun hl => ?_, hended⟩
    by_cases hmain : s.main = .serving ∨ s.main = .stopping
    · rw [if_pos hmain] at hl
      exact hlate hl
    · have hpast : s.main.before = false := by
        revert hmain
        cases s.main <;> simp [Main.before]
      exact (hafter hpast).resolve_left (by rw [hin]; nofun)
  | register ok hhttp | listen hhttp | report ok hhttp | fail hhttp =>
    exact ⟨hbefore, hafter, hmissed, hlate, nofun⟩
  | refuse ok hhttp hin => exact ⟨hbefore, hafter, hmissed, hlate, fun _ => .inl hin⟩
  | cancel ok hhttp =>
    exact ⟨hbefore, hafter, hmissed, hlate, fun _ => .inr (hc.failed (.inr (.inl hhttp)))⟩
  | _ => exact ⟨hbefore, hafter, hmissed, hlate, hended⟩

end Stopped

/-- **A stopped server takes no requests.** A request that comes in after `Run` has
stopped the server is only taken by one that had not been registered by then. Such a
server is never stopped: unless it fails, draining times out. -/
theorem stopped_server_takes_no_request (k : ℕ) (es : List Event) :
    (0 < ((State.launched k).run es).lateRequests → ((State.launched k).run es).missed) ∧
    (((State.launched k).run es).missed → ((State.launched k).run es).main.over →
      ((State.launched k).run es).timedOut ∨ ((State.launched k).run es).listenFailed) := by
  obtain ⟨⟨hd, -⟩, hs⟩ := run_inv (I := fun s => (Drain s ∧ Cause s) ∧ Stopped s)
    (fun h heff => ⟨⟨h.1.1.step heff, h.1.2.step h.1.1 heff⟩, h.2.step h.1.2 heff⟩)
    ⟨⟨Drain.launched k, Cause.launched k⟩, Stopped.launched k⟩ es
  refine ⟨hs.late, fun hmissed hover => ?_⟩
  rcases hd.waited hover with ht | hw
  · exact .inl ht
  · exact .inr ((hs.ended (hd.closed hw).2.1).resolve_left (by rw [hs.missed hmissed]; nofun))

/-! ## Shutting down takes 35 seconds at most -/

/-- What the time is when `Run` is at `main` and was never late; `held` is for how long
`Close` has waited. -/
def OnTime (canceled : Bool) (since now held : ℤ) : Main → Prop
  | .serving | .stopping => canceled → now = since
  | .closing begun => begun = since ∧ now ≤ begun + serverShutdownTimeout
  | .draining begun => begun ≤ since + serverShutdownTimeout ∧ begun ≤ now ∧ now ≤ begun + drainTimeout
  | .result => now ≤ since + serverShutdownTimeout + drainTimeout
  | .deferred _ => now ≤ since + serverShutdownTimeout + drainTimeout + held
  | .returned _ => True

/-- The times of a shutdown. -/
structure Clock (s : State) : Prop where
  leaving : s.main ≠ .serving → s.canceled
  held : 0 ≤ s.held
  time : OnTime s.canceled s.since s.now s.held s.main

namespace Clock

variable {s s' : State} {e : Event}

theorem launched (k : ℕ) : Clock (State.launched k) where
  leaving h := absurd rfl h
  held := le_rfl
  time h := nomatch h

/-- Only the first cancellation counts, and it finds `Run` serving. -/
theorem cancel (h : Clock s) : Clock s.cancel where
  leaving _ := rfl
  held := h.held
  time := by
    have htime := h.time
    simp only [State.cancel]
    cases hc : s.canceled with
    | true =>
      rw [hc] at htime
      exact htime
    | false =>
      have hmain : s.main = .serving := by
        by_contra hne
        rw [h.leaving hne] at hc
        cases hc
      rw [hmain]
      exact fun _ => rfl

theorem tick (h : Clock s) {d : ℕ} (hin : s.Prompt (.tick d)) : Clock (s.step (.tick d)) := by
  obtain ⟨hleaving, hheld, htime⟩ := h
  refine ⟨hleaving, ?_, ?_⟩
  · simp only [State.step]
    split_ifs <;> omega
  · simp only [State.Prompt, State.step] at hin ⊢
    cases hm : s.main with
    | serving =>
      intro hc
      rw [hm, hc] at hin
      cases hin
    | stopping | result =>
      rw [hm] at hin
      exact hin.elim
    | closing begun =>
      rw [hm] at hin htime
      exact ⟨htime.1, hin⟩
    | draining begun =>
      rw [hm] at hin htime
      exact ⟨htime.1, by have := htime.2.1; omega, hin⟩
    | deferred err =>
      -- time passes here only while there are transactions
      rw [hm] at hin htime
      have hblocked : s.blocked = true := by simpa [State.blocked, hm, Main.InTime] using hin
      simp only [OnTime, hblocked, if_true] at htime ⊢
      omega
    | returned err => trivial

theorem step (h : Clock s) (hprompt : s.Prompt e) (heff : Effect s e s') : Clock s' := by
  obtain ⟨hleaving, hheld, htime⟩ := id h
  cases heff with
  | tick d => exact h.tick hprompt
  | signal => exact ⟨h.cancel.leaving, hheld, h.cancel.time⟩
  | cancel ok hhttp => exact ⟨h.cancel.leaving, hheld, h.cancel.time⟩
  | leave hmain hc =>
    rw [hmain] at htime
    exact ⟨fun _ => hc, hheld, htime⟩
  | shut hmain =>
    have hc := hleaving (by rw [hmain]; nofun)
    rw [hmain] at htime
    refine ⟨fun _ => hc, hheld, htime hc, ?_⟩
    simp only [serverShutdownTimeout]
    omega
  | miss hmain =>
    have hc := hleaving (by rw [hmain]; nofun)
    rw [hmain] at htime
    have hnow := htime hc
    refine ⟨fun _ => hc, hheld, ?_, le_rfl, ?_⟩ <;>
      simp only [serverShutdownTimeout, drainTimeout] <;> omega
  | closed hmain =>
    have hc := hleaving (by rw [hmain]; nofun)
    rw [hmain] at htime
    obtain ⟨hbegun, hle⟩ := htime
    refine ⟨fun _ => hc, hheld, ?_, le_rfl, ?_⟩ <;> simp only [drainTimeout] <;> omega
  | done hmain | expire hmain =>
    have hc := hleaving (by rw [hmain]; nofun)
    rw [hmain] at htime
    obtain ⟨hbegun, -, hle⟩ := htime
    exact ⟨fun _ => hc, hheld, by simp only [OnTime]; omega⟩
  | result hmain =>
    have hc := hleaving (by rw [hmain]; nofun)
    rw [hmain] at htime
    exact ⟨fun _ => hc, hheld, htime.trans (le_add_of_nonneg_right hheld)⟩
  | close hmain => exact ⟨fun _ => hleaving (by rw [hmain]; nofun), hheld, trivial⟩
  | _ => exact ⟨hleaving, hheld, htime⟩

/-- Until it has returned, `Run` is within its time. -/
theorem le (h : Clock s) (hc : s.canceled) (hmain : ∀ err, s.main ≠ .returned err) :
    s.now ≤ s.since + serverShutdownTimeout + drainTimeout + s.held := by
  obtain ⟨-, hheld, htime⟩ := h
  revert htime hmain
  simp only [OnTime, serverShutdownTimeout, drainTimeout, hc, forall_const]
  cases s.main <;> grind

end Clock

/-! ## `Run` can always go on -/

/-- How many steps `Run` has before it, at most. -/
def Main.rank : Main → ℕ
  | .serving => 6
  | .stopping => 5
  | .closing _ => 4
  | .draining _ => 3
  | .result => 2
  | .deferred _ => 1
  | .returned _ => 0

/-- `Run` and the clock alone bring `Run` on. -/
def OwnStep (s : State) : Prop :=
  ∃ es, (∀ e ∈ es, e.own) ∧ Along State.step State.Prompt s es ∧ (s.run es).canceled ∧
    (s.run es).transactions = 0 ∧ (s.run es).main.rank < s.main.rank

section OwnStep

variable {s : State} (hc : s.canceled) (hnone : s.transactions = 0)

include hc hnone

theorem OwnStep.next (hrank : s.next.main.rank < s.main.rank) : OwnStep s := by
  have hkeep : s.next.canceled = s.canceled ∧ s.next.transactions = s.transactions := by
    simp only [State.next]
    split <;> (try split_ifs) <;> exact ⟨rfl, rfl⟩
  exact ⟨[.next], by simp [Event.own], ⟨trivial, trivial⟩, hkeep.1.trans hc, hkeep.2.trans hnone,
    hrank⟩

theorem OwnStep.timeout {deadline : ℤ} (hle : s.now ≤ deadline)
    (hin : s.main.InTime s.canceled s.transactions deadline)
    (hrank : ({ s with now := deadline } : State).timeout.main.rank < s.main.rank) : OwnStep s := by
  have hd : s.now + ((deadline - s.now).toNat : ℕ) = deadline := by omega
  have hopen : s.blocked = false := by
    simp only [State.blocked, hnone]
    split <;> rfl
  have hrun : s.run [.tick (deadline - s.now).toNat, .timeout] =
      ({ s with now := deadline } : State).timeout := by
    simp only [State.run, run_cons, run_nil, State.step, hd, hopen, Bool.false_eq_true, if_false]
  have hkeep : ({ s with now := deadline } : State).timeout.canceled = s.canceled ∧
      ({ s with now := deadline } : State).timeout.transactions = s.transactions := by
    simp only [State.timeout]
    split <;> (try split_ifs) <;> exact ⟨rfl, rfl⟩
  refine ⟨[.tick (deadline - s.now).toNat, .timeout], by simp [Event.own], ⟨?_, trivial, trivial⟩,
    ?_, ?_, ?_⟩
  · rw [State.Prompt, hd]
    exact hin
  · rw [hrun]
    exact hkeep.1.trans hc
  · rw [hrun]
    exact hkeep.2.trans hnone
  · rw [hrun]
    exact hrank

/-- Once the context is canceled, `Run` goes on by itself: at once, or when the time it
waits for has passed. -/
theorem exists_own_step (h : Clock s) (hmain : ∀ err, s.main ≠ .returned err) : OwnStep s := by
  have htime := h.time
  cases hm : s.main with
  | serving | result | deferred err =>
    apply OwnStep.next hc hnone
    simp [State.next, hm, hc, hnone, Main.rank]
  | stopping =>
    apply OwnStep.next hc hnone
    simp only [State.next, hm]
    split_ifs <;> simp [Main.rank]
  | closing begun =>
    rw [hm] at htime
    refine OwnStep.timeout hc hnone htime.2 ?_ ?_
    · simp only [Main.InTime, hm, le_refl]
    · simp [State.timeout, hm, Main.rank]
  | draining begun =>
    rw [hm] at htime
    refine OwnStep.timeout hc hnone htime.2.2 ?_ ?_
    · simp only [Main.InTime, hm, le_refl]
    · simp [State.timeout, hm, Main.rank]
  | returned err => exact absurd hm (hmain err)

end OwnStep

theorem clock_run {s : State} {es : List Event} (h : Clock s)
    (hes : Along State.step State.Prompt s es) : Clock (s.run es) :=
  Along.inv (fun s e h he => h.step he (step_effect s e)) hes h

/-- `Run` returns when nothing but itself and the clock goes on. -/
theorem exists_own_run {n : ℕ} {s : State} (h : Clock s) (hc : s.canceled)
    (hnone : s.transactions = 0) (hn : s.main.rank ≤ n) :
    ∃ es err, (∀ e ∈ es, e.own) ∧ Along State.step State.Prompt s es ∧
      (s.run es).main = .returned err := by
  induction n generalizing s with
  | zero =>
    cases hm : s.main with
    | returned err => exact ⟨[], err, nofun, trivial, hm⟩
    | _ => simp [hm, Main.rank] at hn
  | succ n ih =>
    by_cases hmain : ∃ err, s.main = .returned err
    · obtain ⟨err, hm⟩ := hmain
      exact ⟨[], err, nofun, trivial, hm⟩
    · obtain ⟨es, hown, hes, hc', hnone', hrank⟩ :=
        exists_own_step hc hnone h (not_exists.1 hmain)
      obtain ⟨fs, err, hown', hfs, hm⟩ := ih (clock_run h hes) hc' hnone' (by omega)
      refine ⟨es ++ fs, err, ?_, Along.append.2 ⟨hes, hfs⟩, ?_⟩
      · intro e he
        exact (List.mem_append.1 he).elim (hown e) (hown' e)
      · rw [State.run, run_append]
        exact hm

/-- Transactions end without anything else happening. -/
theorem run_engineDone (s : State) (n : ℕ) :
    s.run (List.replicate n .engineDone) = { s with transactions := s.transactions - n } := by
  induction n generalizing s with
  | zero => rfl
  | succ n ih =>
    rw [List.replicate_succ, State.run, run_cons]
    refine (ih _).trans ?_
    simp only [State.step, Nat.sub_sub, Nat.add_comm]

/-- **Shutting down takes 35 seconds at most.** However the other goroutines go on, `Run`
has returned 35 seconds after the context was canceled and however long closing the state
file waits for transactions. To return it needs no other goroutine but those that have
transactions in progress, which have to end them. -/
theorem run_returns_in_time {k : ℕ} {es : List Event}
    (hes : Along State.step State.Prompt (State.launched k) es)
    (hc : ((State.launched k).run es).canceled) :
    let s := (State.launched k).run es
    (s.since + 35 * 10 ^ 9 + s.held < s.now → ∃ err, s.main = .returned err) ∧
    ∃ fs err, (∀ e ∈ fs, e.own) ∧
      Along State.step State.Prompt s (List.replicate s.transactions .engineDone ++ fs) ∧
      (s.run (List.replicate s.transactions .engineDone ++ fs)).main = .returned err := by
  intro s
  have hclock : Clock s := clock_run (Clock.launched k) hes
  constructor
  · intro hlate
    by_contra hmain
    have hle := hclock.le hc (not_exists.1 hmain)
    simp only [serverShutdownTimeout, drainTimeout] at hle
    omega
  · have hdone : Along State.step State.Prompt s (List.replicate s.transactions .engineDone) :=
      .of_forall fun e he s => by rw [List.eq_of_mem_replicate he]; trivial
    have hrun := run_engineDone s s.transactions
    obtain ⟨fs, err, hown, hfs, hm⟩ := exists_own_run (clock_run hclock hdone)
      (by rw [hrun]; exact hc) (by rw [hrun]; exact Nat.sub_self _) le_rfl
    refine ⟨fs, err, hown, Along.append.2 ⟨hdone, hfs⟩, ?_⟩
    rw [State.run, run_append]
    exact hm

/-- A request that does not end, and a chain that does not end its transaction: it holds
up `Close`, both timeouts being over. -/
def hanging : List Event :=
  [.engineNext, .httpNext true, .httpNext true, .request, .tick 1000, .engineUse, .signal, .next,
    .next, .httpNext true, .stream 0, .tick 5000000000, .timeout, .stream 1, .tick 30000000000,
    .timeout, .next, .next, .tick 2000]

theorem run_returns_in_time_hanging :
    Along State.step State.Prompt (State.launched 2) hanging ∧
      ((State.launched 2).run hanging).canceled ∧
      ((State.launched 2).run hanging).held = 2000 ∧
      ∃ fs err, (∀ e ∈ fs, Event.own e) ∧
        Along State.step State.Prompt ((State.launched 2).run hanging) (.engineDone :: fs) ∧
        (((State.launched 2).run hanging).run (.engineDone :: fs)).main = .returned err := by
  have hhanging : Along State.step State.Prompt (State.launched 2) hanging ∧
      ((State.launched 2).run hanging).canceled ∧
      ((State.launched 2).run hanging).held = 2000 ∧
      ((State.launched 2).run hanging).transactions = 1 := by
    decide +kernel
  obtain ⟨hprompt, hc, hheld, hone⟩ := hhanging
  have h := (run_returns_in_time hprompt hc).2
  rw [hone] at h
  exact ⟨hprompt, hc, hheld, h⟩

end TxGen.Shutdown
