import TxGen.Lib.Signal
import TxGen.Spec.Rate

/-!
# Changes of the rate

* `no_rate_change_missed`: the wake channels, as a case of `Lib.Signal`. A call of
  `SetTPS` is a writer of the rate and a waiting chain a reader (`Rate.signal`).
* `set_tps_linearizable_iff`: concurrent calls leave what they leave one after the other
  exactly when the calls that make the three writes last ask for the same.
-/

namespace TxGen

open Lib
open scoped List

/-! ## The rate as a signal -/

/-- A call as a writer of the rate. -/
def Call.writer (c : Call) : Signal.Writer ℤ :=
  match c.pc with
  | .store => .call c.tps
  | .gauge | .state | .swap => .stored
  | .close old => .swapped old
  | .returned => .returned

/-- A waiting chain as a reader of the rate. -/
def WaitPc.reader : WaitPc → Signal.Reader ℤ
  | .load wake => .fetched wake
  | .paused wake tps | .interval wake tps | .sleep wake tps => .read wake tps
  | .fetch | .elapsed | .canceled => .idle

/-- The rate with its wake channel as a signal. -/
def Rate.signal (r : Rate) : Signal.State ℤ :=
  ⟨r.control.tps, r.ch, r.closed, r.calls.map Call.writer, r.chains.map WaitPc.reader⟩

namespace Rate

variable {r : Rate}

/-- A call that only changes its place between its store and its close. -/
theorem writers_set {i : ℕ} {c : Call} (hi : r.calls[i]? = some c) (pc : CallPc)
    (hw : Call.writer { c with pc } = c.writer) :
    (r.calls.set i { c with pc }).map Call.writer = r.calls.map Call.writer := by
  rw [List.map_set, hw]
  exact set_of_getElem? (by rw [List.getElem?_map, hi]; rfl)

theorem signal_callStep (r : Rate) (i : ℕ) :
    ∃ es, (r.callStep i).signal = Lib.run Signal.step r.signal es := by
  unfold callStep
  cases hi : r.calls[i]? with
  | none => exact ⟨[], rfl⟩
  | some c =>
    have hw : r.signal.writers[i]? = some c.writer := by
      rw [signal, List.getElem?_map, hi]
      rfl
    obtain ⟨tps, pc⟩ := c
    cases pc with
    | store | swap | close old =>
      refine ⟨[.write i], ?_⟩
      rw [run_cons, run_nil, Signal.step, hw]
      simp [signal, Call.writer, List.map_set]
    | gauge =>
      have hset := writers_set hi .state rfl
      exact ⟨[], by simp only [signal, hset, run_nil]⟩
    | state =>
      have hset := writers_set hi .swap rfl
      exact ⟨[], by simp only [signal, hset, run_nil]⟩
    | returned => exact ⟨[], rfl⟩

theorem signal_waitStep (r : Rate) (j : ℕ) (e : WaitEvent) :
    ∃ es, (r.waitStep j e).signal = Lib.run Signal.step r.signal es := by
  unfold waitStep
  cases hj : r.chains[j]? with
  | none => exact ⟨[], rfl⟩
  | some pc =>
    have hr : r.signal.readers[j]? = some pc.reader := by
      rw [signal, List.getElem?_map, hj]
      rfl
    have hsame : ∀ pc' : WaitPc, pc'.reader = pc.reader →
        ∃ es, Rate.signal { r with chains := r.chains.set j pc' } = Lib.run Signal.step r.signal es := by
      intro pc' heq
      refine ⟨[], ?_⟩
      have hset : (r.chains.set j pc').map WaitPc.reader = r.chains.map WaitPc.reader := by
        rw [List.map_set, heq]
        exact set_of_getElem? (by rw [List.getElem?_map, hj]; rfl)
      simp only [signal, hset, run_nil]
    have hidle : ∀ pc' : WaitPc, pc'.reader = .idle →
        ∃ es, Rate.signal { r with chains := r.chains.set j pc' } = Lib.run Signal.step r.signal es := by
      intro pc' heq
      refine ⟨[.leave j], ?_⟩
      simp [Signal.step, signal, List.map_set, heq]
    unfold waitNext
    dsimp only
    split
    · refine ⟨[.fetch j], ?_⟩
      rw [run_cons, run_nil, Signal.step, hr]
      simp [signal, WaitPc.reader, List.map_set]
    · refine ⟨[.read j], ?_⟩
      rw [run_cons, run_nil, Signal.step, hr]
      split_ifs <;> simp [signal, WaitPc.reader, List.map_set]
    · split_ifs
      · exact hidle _ rfl
      · exact hsame _ rfl
    · split_ifs
      · exact hidle _ rfl
      · exact hsame _ rfl
    · split_ifs
      · exact hidle _ rfl
      · exact hsame _ rfl
    · exact hidle _ rfl
    · split_ifs
      · exact hidle _ rfl
      · exact hsame _ rfl
    · split_ifs
      · exact hidle _ rfl
      · exact hsame _ rfl
    · exact hidle _ rfl
    · exact hsame _ rfl

/-- **Every step is a run of the signal.** -/
theorem signal_step (r : Rate) (e : RateEvent) :
    ∃ es, (r.step e).signal = Lib.run Signal.step r.signal es := by
  cases e with
  | setTPS tps =>
    refine ⟨[.call tps], ?_⟩
    simp [step, signal, Signal.step, Call.writer]
  | call i => exact signal_callStep r i
  | chain =>
    refine ⟨[.join], ?_⟩
    simp [step, signal, Signal.step, WaitPc.reader]
  | wait j e => exact signal_waitStep r j e
  | cancel => exact ⟨[], rfl⟩

theorem signal_inv (c : Control) (es : List RateEvent) : Signal.Inv ((init c).run es).signal := by
  obtain ⟨ds, hds⟩ := exists_run_of_sim signal_step (init c) es
  rw [run, hds]
  exact Signal.inv_run c.tps ds

end Rate

/-! ## No change is missed -/

/-- A chain is paused by a rate that is not positive, and sleeps at one that is. -/
def WaitPc.Signed : WaitPc → Prop
  | .paused _ tps => tps ≤ 0
  | .interval _ tps | .sleep _ tps => 0 < tps
  | _ => True

theorem Rate.waitNext_signed (r : Rate) {pc : WaitPc} (h : pc.Signed) (e : WaitEvent) :
    (r.waitNext pc e).Signed := by
  unfold waitNext
  split
  case h_2 =>
    split_ifs with hpos
    · exact hpos
    · exact not_lt.1 hpos
  all_goals first
    | exact h
    | trivial
    | (split_ifs <;> first | exact h | trivial)

theorem Rate.step_signed {r : Rate} (h : ∀ pc ∈ r.chains, pc.Signed) (e : RateEvent) :
    ∀ pc ∈ (r.step e).chains, pc.Signed := by
  cases e with
  | setTPS tps => exact h
  | call i =>
    have hchains : (r.callStep i).chains = r.chains := by
      unfold callStep
      repeat' split
      all_goals rfl
    show ∀ pc ∈ (r.callStep i).chains, pc.Signed
    rw [hchains]
    exact h
  | chain =>
    intro pc hpc
    rcases List.mem_append.1 hpc with hpc | hpc
    · exact h pc hpc
    · rw [List.mem_singleton.1 hpc]
      trivial
  | wait j e =>
    show ∀ pc ∈ (r.waitStep j e).chains, pc.Signed
    unfold waitStep
    split
    · exact h
    · rename_i pc hj
      exact forall_set h (r.waitNext_signed (h pc (List.mem_of_getElem? hj)) e)
  | cancel => exact h

theorem Rate.run_signed (c : Control) (es : List RateEvent) :
    ∀ pc ∈ ((Rate.init c).run es).chains, pc.Signed :=
  Along.inv (C := fun _ _ => True) (I := fun r : Rate => ∀ pc ∈ r.chains, pc.Signed)
    (fun _ e h _ => step_signed h e) (Along.of_forall fun _ _ _ => trivial)
    (fun _ hpc => by cases hpc)

/-- **No change of the rate is missed.** No wake channel is closed twice. When every
call of `SetTPS` has returned, a chain blocked on an open channel has read the current
rate; if it is paused, that rate is not positive. -/
theorem no_rate_change_missed (c : Control) (es : List RateEvent) :
    ((Rate.init c).run es).closed.Nodup ∧
      ((∀ call ∈ ((Rate.init c).run es).calls, call.pc = .returned) →
        ∀ pc ∈ ((Rate.init c).run es).chains, ∀ wake tps, pc.blocked = some (wake, tps) →
          wake ∉ ((Rate.init c).run es).closed →
          tps = ((Rate.init c).run es).control.tps ∧
            (pc = .paused wake tps → ((Rate.init c).run es).control.tps ≤ 0)) := by
  have hinv := Rate.signal_inv c es
  have hsigned := Rate.run_signed c es
  generalize (Rate.init c).run es = r at hinv hsigned ⊢
  refine ⟨hinv.nodup_closed, fun hdone pc hpc wake tps hb hopen => ?_⟩
  have hwriters : ∀ w ∈ r.signal.writers, w = .returned := by
    intro w hw
    obtain ⟨call, hcall, rfl⟩ := List.mem_map.1 hw
    rw [Call.writer, hdone call hcall]
  have hreader : pc.reader = .read wake tps := by
    cases pc <;> cases hb <;> rfl
  have htps : tps = r.control.tps :=
    hinv.value_of_open hwriters (List.mem_map.2 ⟨pc, hpc, hreader⟩) hopen
  refine ⟨htps, fun hp => ?_⟩
  have hle : pc.Signed := hsigned pc hpc
  rw [hp] at hle
  rw [← htps]
  exact hle

namespace Concrete

/-- An engine with running chains. -/
def runningControl : Control := ⟨5, 5, ⟨.running, 5, 10, 0⟩⟩

/-- The next five steps of call `i`, its whole run. -/
def wholeCall (i : ℕ) : List RateEvent := List.replicate 5 (.call i)

/-- A chain sleeps at 5, is paused by a rate of 0, and sleeps on at 3. -/
def wakeRun : List RateEvent :=
  [.chain, .wait 0 .next, .wait 0 .next, .wait 0 (.duration 2)] ++ .setTPS 0 :: wholeCall 0 ++
    [.wait 0 .wake, .wait 0 .next, .wait 0 .next] ++ .setTPS 3 :: wholeCall 1 ++
    [.wait 0 .wake, .wait 0 .next, .wait 0 .next, .wait 0 (.duration 4)]

end Concrete

/-- After two changes the chain sleeps on the third channel, at the last rate. -/
theorem wake_run_sleeps_at_rate :
    ((Rate.init Concrete.runningControl).run Concrete.wakeRun).chains = [.sleep 2 3] ∧
      ((Rate.init Concrete.runningControl).run Concrete.wakeRun).closed.Nodup ∧
      3 = ((Rate.init Concrete.runningControl).run Concrete.wakeRun).control.tps := by
  obtain ⟨hclosed, hmissed⟩ := no_rate_change_missed Concrete.runningControl Concrete.wakeRun
  refine ⟨by decide +kernel, hclosed, ?_⟩
  exact (hmissed (by decide +kernel) (.sleep 2 3) (by decide +kernel) 2 3 rfl (by decide +kernel)).1

/-! ## Concurrent calls -/

/-- The lifecycle that `SetTPS` leaves when chains exist and none has failed. -/
def rateLifecycle (tps : ℤ) : Lifecycle := if 0 < tps then .running else .paused

/-- The lifecycle is `running` or `paused`. -/
def Control.Rated (c : Control) : Prop :=
  c.state.lifecycle = .running ∨ c.state.lifecycle = .paused

instance (c : Control) : Decidable c.Rated := inferInstanceAs (Decidable (_ ∨ _))

/-- What can be seen of a change of the rate: the rate, the gauge and the lifecycle. -/
def Control.seen (c : Control) : ℤ × ℤ × Lifecycle := (c.tps, c.tpsTarget, c.state.lifecycle)

/-- What is seen is what the calls leave one after the other, in some order. -/
def Linearizable (c : Control) (calls : List ℤ) (c' : Control) : Prop :=
  ∃ order : List ℤ, order ~ calls ∧ c'.seen = (order.foldl Control.setTPS c).seen

theorem rateLifecycle_cases (tps : ℤ) : rateLifecycle tps = .running ∨ rateLifecycle tps = .paused := by
  unfold rateLifecycle
  split_ifs <;> simp

theorem rateLifecycle_inj {a b : ℤ} : rateLifecycle a = rateLifecycle b ↔ (0 < a ↔ 0 < b) := by
  unfold rateLifecycle
  by_cases ha : 0 < a <;> by_cases hb : 0 < b <;> simp [ha, hb]

theorem rateLifecycle_paused {tps : ℤ} : rateLifecycle tps = .paused ↔ tps ≤ 0 := by
  unfold rateLifecycle
  by_cases h : 0 < tps
  · simp [h]
  · simp [h, not_lt.1 h]

theorem State.lifecycle_setTPS {s : State} (h : s.lifecycle = .running ∨ s.lifecycle = .paused)
    (tps : ℤ) : (s.setTPS tps).lifecycle = rateLifecycle tps := by
  unfold State.setTPS rateLifecycle
  by_cases hpos : 0 < tps
  · rcases h with h | h <;> simp [h, hpos]
  · rcases h with h | h <;> simp [h, hpos, not_lt.1 hpos]

theorem Control.Rated.setTPS {c : Control} (h : c.Rated) (tps : ℤ) : (c.setTPS tps).Rated := by
  unfold Control.Rated Control.setTPS
  rw [State.lifecycle_setTPS h]
  exact rateLifecycle_cases tps

theorem Control.Rated.foldl {c : Control} (h : c.Rated) (l : List ℤ) :
    (l.foldl Control.setTPS c).Rated := by
  induction l generalizing c with
  | nil => exact h
  | cons v l ih => exact ih (h.setTPS v)

/-- **One call after the other, the last one decides**, and any of them can be the
last. -/
theorem linearizable_iff {c : Control} (h : c.Rated) {calls : List ℤ} (hne : calls ≠ [])
    {c' : Control} :
    Linearizable c calls c' ↔ ∃ v ∈ calls, c'.seen = (v, v, rateLifecycle v) := by
  have hlast : ∀ l v, ((l ++ [v]).foldl Control.setTPS c).seen = (v, v, rateLifecycle v) := by
    intro l v
    rw [List.foldl_append]
    show (v, v, ((l.foldl Control.setTPS c).state.setTPS v).lifecycle) = _
    rw [State.lifecycle_setTPS (h.foldl l)]
  constructor
  · rintro ⟨order, hperm, hseen⟩
    rcases List.eq_nil_or_concat order with rfl | ⟨l, v, rfl⟩
    · exact absurd hperm.nil_eq.symm hne
    · rw [List.concat_eq_append] at hperm hseen
      refine ⟨v, hperm.mem_iff.1 (by simp), ?_⟩
      rw [hseen, hlast]
  · rintro ⟨v, hv, hseen⟩
    refine ⟨calls.erase v ++ [v], ?_, by rw [hseen, hlast]⟩
    exact List.perm_append_comm.trans (List.perm_cons_erase hv).symm

/-- The call that takes its step at `pc` in this event. -/
def Rate.callAt (pc : CallPc) (r : Rate) : RateEvent → Option Call
  | .call i => r.calls[i]?.filter (·.pc = pc)
  | _ => none

/-- The call that takes its step at `pc` last: the one that stores the rate last, writes
the gauge last, or updates the record last. -/
def lastCall (c : Control) (pc : CallPc) (es : List RateEvent) : Option Call :=
  lastOf Rate.step (Rate.callAt pc) (Rate.init c) es

/-- The calls that make the three writes last ask for the same: the one that writes the
gauge for the rate of the one that stores it, and the one that updates the record for a
positive rate when that one does. -/
def LastCallsAgree (c : Control) (es : List RateEvent) : Prop :=
  ∀ a ∈ lastCall c .store es, ∀ b ∈ lastCall c .gauge es, ∀ d ∈ lastCall c .state es,
    b.tps = a.tps ∧ (0 < d.tps ↔ 0 < a.tps)

instance (c : Control) (es : List RateEvent) : Decidable (LastCallsAgree c es) :=
  inferInstanceAs (Decidable (∀ a ∈ lastCall c .store es, ∀ b ∈ lastCall c .gauge es,
    ∀ d ∈ lastCall c .state es, b.tps = a.tps ∧ (0 < d.tps ↔ 0 < a.tps)))

theorem lastCall_concat (c : Control) (pc : CallPc) (es : List RateEvent) (e : RateEvent) :
    lastCall c pc (es ++ [e]) =
      (((Rate.init c).run es).callAt pc e).or (lastCall c pc es) := lastOf_concat _ _ es e

/-- In a step of a call, that call is the last at its place. -/
theorem lastCall_call {c : Control} {es : List RateEvent} {i : ℕ} {call : Call}
    (hi : ((Rate.init c).run es).calls[i]? = some call) (pc : CallPc) :
    lastCall c pc (es ++ [.call i]) = if call.pc = pc then some call else lastCall c pc es := by
  rw [lastCall_concat, Rate.callAt, hi, Option.filter_some]
  by_cases hpc : call.pc = pc <;> simp [hpc]

/-- A step of a call leaves the rates that are asked for. -/
theorem map_tps_set {calls : List Call} {i : ℕ} {call : Call} (hi : calls[i]? = some call)
    (pc : CallPc) : (calls.set i { call with pc }).map Call.tps = calls.map Call.tps := by
  rw [List.map_set]
  exact set_of_getElem? (by rw [List.getElem?_map, hi]; rfl)

/-- What the calls have written, by the call that wrote it last; a write that no call has
made is still before every one. -/
structure Written (c : Control) (es : List RateEvent) (r : Rate) : Prop where
  rated : r.control.Rated
  rate : ∀ a ∈ lastCall c .store es, r.control.tps = a.tps ∧ a.tps ∈ r.calls.map Call.tps
  gauge : ∀ b ∈ lastCall c .gauge es, r.control.tpsTarget = b.tps
  record : ∀ d ∈ lastCall c .state es, r.control.state.lifecycle = rateLifecycle d.tps
  unstored : lastCall c .store es = none → ∀ call ∈ r.calls, call.pc = .store
  unshown : lastCall c .gauge es = none → ∀ call ∈ r.calls, call.pc = .store ∨ call.pc = .gauge
  unrecorded : lastCall c .state es = none →
    ∀ call ∈ r.calls, call.pc = .store ∨ call.pc = .gauge ∨ call.pc = .state

namespace Written

variable {c : Control} {es : List RateEvent} {r : Rate}

/-- A call past its store: some call has stored last. -/
theorem stored (h : Written c es r) {call : Call} (hmem : call ∈ r.calls)
    (hs : call.pc ≠ .store) : lastCall c .store es ≠ none :=
  fun hnone => hs (h.unstored hnone call hmem)

theorem shown (h : Written c es r) {call : Call} (hmem : call ∈ r.calls)
    (hs : call.pc ≠ .store) (hg : call.pc ≠ .gauge) : lastCall c .gauge es ≠ none :=
  fun hnone => (h.unshown hnone call hmem).elim hs hg

theorem recorded (h : Written c es r) {call : Call} (hmem : call ∈ r.calls)
    (hs : call.pc ≠ .store) (hg : call.pc ≠ .gauge) (hd : call.pc ≠ .state) :
    lastCall c .state es ≠ none :=
  fun hnone => (h.unrecorded hnone call hmem).elim hs fun hcase => hcase.elim hg hd

/-- A step that is no call's leaves the calls' writes as they are. -/
theorem other (h : Written c es r) {r' : Rate} {e : RateEvent} (he : ∀ i, e ≠ .call i)
    (hcontrol : r'.control = r.control)
    (hcalls : ∀ call ∈ r'.calls, call ∈ r.calls ∨ call.pc = .store) (hsub : r.calls ⊆ r'.calls) :
    Written c (es ++ [e]) r' := by
  have hlast : ∀ pc, lastCall c pc (es ++ [e]) = lastCall c pc es := by
    intro pc
    cases e with
    | call i => exact absurd rfl (he i)
    | _ => exact lastOf_concat_none rfl
  refine ⟨hcontrol ▸ h.rated, ?_, ?_, ?_, ?_, ?_, ?_⟩
  · intro a ha
    rw [hlast] at ha
    rw [hcontrol]
    exact ⟨(h.rate a ha).1, List.map_subset _ hsub (h.rate a ha).2⟩
  · rw [hlast, hcontrol]
    exact h.gauge
  · rw [hlast, hcontrol]
    exact h.record
  · intro hnone call hcall
    exact (hcalls call hcall).elim (h.unstored (hlast _ ▸ hnone) call) id
  · intro hnone call hcall
    exact (hcalls call hcall).elim (h.unshown (hlast _ ▸ hnone) call) Or.inl
  · intro hnone call hcall
    exact (hcalls call hcall).elim (h.unrecorded (hlast _ ▸ hnone) call) Or.inl

/-- A step of a call that has made its writes. -/
theorem late (h : Written c es r) {call : Call} (hmem : call ∈ r.calls)
    (hpc : call.pc ≠ .store ∧ call.pc ≠ .gauge ∧ call.pc ≠ .state) {e : RateEvent} {r' : Rate}
    (hlast : ∀ pc, pc = .store ∨ pc = .gauge ∨ pc = .state →
      lastCall c pc (es ++ [e]) = lastCall c pc es)
    (hcontrol : r'.control = r.control) (hcalls : r'.calls.map Call.tps = r.calls.map Call.tps) :
    Written c (es ++ [e]) r' := by
  have hs := hlast .store (by simp)
  have hg := hlast .gauge (by simp)
  have hd := hlast .state (by simp)
  constructor
  · rw [hcontrol]
    exact h.rated
  · rw [hs, hcontrol, hcalls]
    exact h.rate
  · rw [hg, hcontrol]
    exact h.gauge
  · rw [hd, hcontrol]
    exact h.record
  · exact fun hnone => (h.stored hmem hpc.1 (hs ▸ hnone)).elim
  · exact fun hnone => (h.shown hmem hpc.1 hpc.2.1 (hg ▸ hnone)).elim
  · exact fun hnone => (h.recorded hmem hpc.1 hpc.2.1 hpc.2.2 (hd ▸ hnone)).elim

/-- **The next step of a call.** -/
theorem callStep (h : Written c es r) (hr : r = (Rate.init c).run es) (i : ℕ) :
    Written c (es ++ [.call i]) (r.callStep i) := by
  unfold Rate.callStep
  split
  · rename_i hi
    have hsame : ∀ pc, lastCall c pc (es ++ [.call i]) = lastCall c pc es := by
      intro pc
      rw [lastCall_concat, ← hr, Rate.callAt, hi]
      rfl
    exact ⟨h.rated, hsame .store ▸ h.rate, hsame .gauge ▸ h.gauge, hsame .state ▸ h.record,
      hsame .store ▸ h.unstored, hsame .gauge ▸ h.unshown, hsame .state ▸ h.unrecorded⟩
  rename_i call hi
  have hmem : call ∈ r.calls := List.mem_of_getElem? hi
  have htps := map_tps_set hi
  have hlast := lastCall_call (hr ▸ hi)
  split
  case h_1 hpc =>
    have hthis : lastCall c .store (es ++ [.call i]) = some call := by simp [hlast, hpc]
    have hg : lastCall c .gauge (es ++ [.call i]) = lastCall c .gauge es := by simp [hlast, hpc]
    have hd : lastCall c .state (es ++ [.call i]) = lastCall c .state es := by simp [hlast, hpc]
    constructor
    · exact h.rated
    · intro a ha
      obtain rfl : call = a := Option.some.inj (hthis.symm.trans ha)
      exact ⟨rfl, (htps _).symm ▸ List.mem_map_of_mem hmem⟩
    · exact hg ▸ h.gauge
    · exact hd ▸ h.record
    · simp [hthis]
    · exact fun hnone => forall_set (h.unshown (hg ▸ hnone)) (Or.inr rfl)
    · exact fun hnone => forall_set (h.unrecorded (hd ▸ hnone)) (Or.inr (Or.inl rfl))
  case h_2 hpc =>
    have hs : lastCall c .store (es ++ [.call i]) = lastCall c .store es := by simp [hlast, hpc]
    have hthis : lastCall c .gauge (es ++ [.call i]) = some call := by simp [hlast, hpc]
    have hd : lastCall c .state (es ++ [.call i]) = lastCall c .state es := by simp [hlast, hpc]
    constructor
    · exact h.rated
    · rw [hs, htps]
      exact h.rate
    · intro b hb
      obtain rfl : call = b := Option.some.inj (hthis.symm.trans hb)
      rfl
    · exact hd ▸ h.record
    · exact fun hnone => (h.stored hmem (by simp [hpc]) (hs ▸ hnone)).elim
    · simp [hthis]
    · exact fun hnone => forall_set (h.unrecorded (hd ▸ hnone)) (Or.inr (Or.inr rfl))
  case h_3 hpc =>
    have hs : lastCall c .store (es ++ [.call i]) = lastCall c .store es := by simp [hlast, hpc]
    have hg : lastCall c .gauge (es ++ [.call i]) = lastCall c .gauge es := by simp [hlast, hpc]
    have hthis : lastCall c .state (es ++ [.call i]) = some call := by simp [hlast, hpc]
    have hlife := State.lifecycle_setTPS h.rated call.tps
    constructor
    · rw [Control.Rated, hlife]
      exact rateLifecycle_cases call.tps
    · rw [hs, htps]
      exact h.rate
    · exact hg ▸ h.gauge
    · intro d hd
      obtain rfl : call = d := Option.some.inj (hthis.symm.trans hd)
      exact hlife
    · exact fun hnone => (h.stored hmem (by simp [hpc]) (hs ▸ hnone)).elim
    · exact fun hnone => (h.shown hmem (by simp [hpc]) (by simp [hpc]) (hg ▸ hnone)).elim
    · simp [hthis]
  -- from here on the call writes nothing
  case h_4 hpc | h_5 hpc | h_6 hpc =>
    refine h.late hmem (by simp [hpc]) (fun pc hcase => ?_) rfl ?_
    · rw [hlast, if_neg]
      rcases hcase with rfl | rfl | rfl <;> simp [hpc]
    · first | exact htps _ | rfl

theorem step (h : Written c es r) (hr : r = (Rate.init c).run es) (e : RateEvent) :
    Written c (es ++ [e]) (r.step e) := by
  cases e with
  | setTPS tps =>
    refine h.other (by simp) rfl (fun call hcall => ?_) (List.subset_append_left _ _)
    rcases List.mem_append.1 hcall with hcall | hcall
    · exact Or.inl hcall
    · rw [List.mem_singleton.1 hcall]
      exact Or.inr rfl
  | call i => exact h.callStep hr i
  | chain | cancel => exact h.other (by simp) rfl (fun _ => Or.inl) (List.Subset.refl _)
  | wait j e =>
    have hsame : (r.waitStep j e).control = r.control ∧ (r.waitStep j e).calls = r.calls := by
      unfold Rate.waitStep
      split <;> exact ⟨rfl, rfl⟩
    refine h.other (by simp) hsame.1 (fun call hcall => Or.inl ?_) ?_
    · rw [← hsame.2]
      exact hcall
    · show r.calls ⊆ (r.waitStep j e).calls
      rw [hsame.2]
      exact List.Subset.refl _

theorem run {c : Control} (hc : c.Rated) (es : List RateEvent) :
    Written c es ((Rate.init c).run es) := by
  have h0 : Written c [] (Rate.init c) := by
    constructor
    · exact hc
    all_goals intro x hx
    · cases hx
    · cases hx
    · cases hx
    all_goals exact fun hcall => (List.not_mem_nil hcall).elim
  exact run_history h0 (fun es e h => h.step rfl e) es

end Written

/-- **When concurrent calls are linearizable.** When all calls of `SetTPS` have returned,
they have left what they leave in some order exactly when the calls that make the three
writes last agree; then the gauge shows the rate, and the lifecycle is `paused` when that
is 0. -/
theorem set_tps_linearizable_iff {c : Control} (hc : c.Rated) (es : List RateEvent)
    (hdone : ∀ call ∈ ((Rate.init c).run es).calls, call.pc = .returned)
    (hne : ((Rate.init c).run es).calls ≠ []) :
    (Linearizable c (((Rate.init c).run es).calls.map Call.tps) ((Rate.init c).run es).control ↔
        LastCallsAgree c es) ∧
      (LastCallsAgree c es →
        ((Rate.init c).run es).control.tpsTarget = ((Rate.init c).run es).control.tps ∧
        (((Rate.init c).run es).control.state.lifecycle = .paused ↔
          ((Rate.init c).run es).control.tps ≤ 0) ∧
        ((∀ call ∈ ((Rate.init c).run es).calls, 0 ≤ call.tps) →
          (((Rate.init c).run es).control.state.lifecycle = .paused ↔
            ((Rate.init c).run es).control.tps = 0))) := by
  have hw := Written.run hc es
  generalize (Rate.init c).run es = r at hdone hne hw ⊢
  obtain ⟨call, hcall⟩ := List.exists_mem_of_ne_nil _ hne
  have hpc := hdone call hcall
  -- a call that has returned has made its three writes
  obtain ⟨a, ha⟩ := Option.ne_none_iff_exists'.1
    (hw.stored hcall (by simp [hpc]))
  obtain ⟨b, hb⟩ := Option.ne_none_iff_exists'.1
    (hw.shown hcall (by simp [hpc]) (by simp [hpc]))
  obtain ⟨d, hd⟩ := Option.ne_none_iff_exists'.1
    (hw.recorded hcall (by simp [hpc]) (by simp [hpc]) (by simp [hpc]))
  obtain ⟨htps, hrate⟩ := hw.rate a ha
  have hgauge := hw.gauge b hb
  have hlife := hw.record d hd
  have hagree : LastCallsAgree c es ↔ b.tps = a.tps ∧ (0 < d.tps ↔ 0 < a.tps) := by
    simp [LastCallsAgree, ha, hb, hd]
  rw [hagree, htps, hgauge, hlife]
  have hpaused : (0 < d.tps ↔ 0 < a.tps) → (rateLifecycle d.tps = .paused ↔ a.tps ≤ 0) := by
    intro hsign
    rw [rateLifecycle_inj.2 hsign, rateLifecycle_paused]
  refine ⟨?_, fun hag => ⟨hag.1, hpaused hag.2, fun hpos => ?_⟩⟩
  · rw [linearizable_iff hc (by simpa using hne), Control.seen, htps, hgauge, hlife]
    constructor
    · rintro ⟨v, -, hseen⟩
      simp only [Prod.mk.injEq] at hseen
      obtain ⟨hav, hbv, hl⟩ := hseen
      refine ⟨by rw [hbv, hav], ?_⟩
      rw [hav]
      exact rateLifecycle_inj.1 hl
    · intro hag
      exact ⟨a.tps, hrate, by rw [hag.1, rateLifecycle_inj.2 hag.2]⟩
  · rw [hpaused hag.2]
    obtain ⟨c₀, hc₀, heq⟩ := List.mem_map.1 hrate
    have := hpos c₀ hc₀
    omega

namespace Concrete

/-- A rate of 5 and a stop at the same time: the stop stores its rate last, and the
other call writes the gauge and the record last. -/
def stopWhileSetting : List RateEvent :=
  [.setTPS 5, .setTPS 0, .call 0, .call 1, .call 1, .call 1] ++ List.replicate 4 (.call 0) ++
    [.call 1, .call 1]

/-- A stop after a rate of 5. -/
def stopAfterSetting : List RateEvent :=
  [.setTPS 5, .setTPS 0, .call 0] ++ wholeCall 1 ++ List.replicate 4 (.call 0) ++
    .setTPS 0 :: wholeCall 2

end Concrete

/-- The chains are stopped, the gauge and the lifecycle say they run. -/
theorem stop_while_setting_not_linearizable :
    ((Rate.init Concrete.runningControl).run Concrete.stopWhileSetting).control.seen =
        (0, 5, .running) ∧
      (∀ call ∈ ((Rate.init Concrete.runningControl).run Concrete.stopWhileSetting).calls,
        call.pc = .returned) ∧
      ¬ Linearizable Concrete.runningControl
        (((Rate.init Concrete.runningControl).run Concrete.stopWhileSetting).calls.map Call.tps)
        ((Rate.init Concrete.runningControl).run Concrete.stopWhileSetting).control := by
  have hseen : ((Rate.init Concrete.runningControl).run Concrete.stopWhileSetting).control.seen =
      (0, 5, .running) := by decide +kernel
  refine ⟨hseen, by decide +kernel, ?_⟩
  rw [linearizable_iff (Or.inl rfl) (by decide +kernel), hseen]
  rintro ⟨v, -, hv⟩
  cases hv

/-- The last of three calls is alone, and decides. -/
theorem stop_after_setting_linearizable :
    Linearizable Concrete.runningControl [5, 0, 0]
      ((Rate.init Concrete.runningControl).run Concrete.stopAfterSetting).control := by
  have hcalls : ((Rate.init Concrete.runningControl).run Concrete.stopAfterSetting).calls.map Call.tps =
      [5, 0, 0] := by decide +kernel
  have hrated : Concrete.runningControl.Rated := Or.inl rfl
  rw [← hcalls]
  exact (set_tps_linearizable_iff hrated Concrete.stopAfterSetting (by decide +kernel)
    (by decide +kernel)).1.2 (by decide +kernel)

end TxGen
