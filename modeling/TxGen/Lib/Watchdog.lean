import Mathlib.Algebra.Order.Ring.Int
import TxGen.Lib.Machine

/-!
# A watchdog

A party signals that it is alive, and a watcher fires when it has not been signaled for
the time `idle`. The signal is kept in a buffer of one: the party never blocks, and the
watcher takes it when it gets to it and sets its timer anew. The party may also stop the
watcher. A watcher that finds its timer expired and a signal, or the stop, at the same
time may go either way.

Scheduling is arbitrary here. `Prompt` says that time passes only while the watcher has
nothing to do, and under it the watchdog is exact: it does not fire within `idle` of a
signal (`Inv.fired`) and is not late (`Inv.not_late`).
-/

namespace Lib

/-- Where the watcher stands: before it sets its timer, waiting, or at its end. -/
inductive Watchdog.Pc
  | starting
  | waiting (deadline : ℤ)
  | returned
  deriving DecidableEq, Repr

/-- The time, the watcher, its buffered signal, whether it has been stopped, when it
fired, and when it was signaled, the latest first. -/
structure Watchdog where
  now : ℤ
  pc : Watchdog.Pc
  signaled : Bool
  stopped : Bool
  fired : Option ℤ
  signals : List ℤ
  deriving DecidableEq, Repr

namespace Watchdog

/-- Time passes, the party signals or stops, or the watcher takes a step: it sets its
timer, finds it expired, takes the signal, or finds that it has been stopped. -/
inductive Event
  | tick (d : ℕ)
  | signal
  | stop
  | start
  | expire
  | reset
  | quit
  deriving DecidableEq, Repr

/-- The steps of the watcher. -/
def Event.own : Event → Bool
  | .start | .expire | .reset | .quit => true
  | _ => false

/-- One event. -/
def step (idle : ℤ) (w : Watchdog) : Event → Watchdog
  | .tick d => { w with now := w.now + d }
  | .signal => { w with signaled := true, signals := w.now :: w.signals }
  | .stop => { w with stopped := true }
  | .start =>
    match w.pc with
    | .starting => { w with pc := .waiting (w.now + idle) }
    | _ => w
  | .expire =>
    match w.pc with
    | .waiting deadline =>
      if deadline ≤ w.now then { w with pc := .returned, fired := some w.now } else w
    | _ => w
  | .reset =>
    match w.pc with
    | .waiting _ =>
      if w.signaled then { w with pc := .waiting (w.now + idle), signaled := false } else w
    | _ => w
  | .quit =>
    match w.pc with
    | .waiting _ => if w.stopped then { w with pc := .returned } else w
    | _ => w

/-- A watcher is started at the time `now` and signaled for the first time. -/
def begin (now : ℤ) : Watchdog := ⟨now, .starting, true, false, none, [now]⟩

/-- No watcher. -/
def absent (now : ℤ) : Watchdog := ⟨now, .returned, false, true, none, []⟩

/-- Time passes only while the watcher waits with nothing to take, and not beyond its
deadline. -/
def Prompt (w : Watchdog) : Event → Prop
  | .tick d =>
    match w.pc with
    | .starting => d = 0
    | .waiting deadline =>
      d = 0 ∨ (w.signaled = false ∧ w.stopped = false ∧ w.now + d ≤ deadline)
    | .returned => True
  | _ => True

instance Prompt.decidable : ∀ (w : Watchdog) (e : Event), Decidable (w.Prompt e)
  | ⟨_, .starting, _, _, _, _⟩, .tick d => inferInstanceAs (Decidable (d = 0))
  | ⟨now, .waiting deadline, signaled, stopped, _, _⟩, .tick d =>
    inferInstanceAs (Decidable (d = 0 ∨ (signaled = false ∧ stopped = false ∧ now + d ≤ deadline)))
  | ⟨_, .returned, _, _, _, _⟩, .tick _ => isTrue trivial
  | _, .signal | _, .stop | _, .start | _, .expire | _, .reset | _, .quit => isTrue trivial

variable {idle : ℤ} {w : Watchdog}

/-- A watcher that has returned takes no step any more. -/
theorem step_returned (h : w.pc = .returned) (e : Event) : (step idle w e).pc = .returned := by
  unfold step
  cases e <;> simp [h]

theorem step_stopped {e : Event} (he : e ≠ .stop) : (step idle w e).stopped = w.stopped := by
  unfold step
  cases e with
  | stop => exact absurd rfl he
  | tick d => rfl
  | signal => rfl
  | start => dsimp only; split <;> rfl
  | expire => dsimp only; split <;> [split_ifs <;> rfl; rfl]
  | reset => dsimp only; split <;> [split_ifs <;> rfl; rfl]
  | quit => dsimp only; split <;> [split_ifs <;> rfl; rfl]

/-- Only `tick` takes time. -/
theorem step_now {e : Event} (he : e.own = true) : (step idle w e).now = w.now := by
  unfold step
  cases e with
  | tick d => cases he
  | signal => cases he
  | stop => cases he
  | start => dsimp only; split <;> rfl
  | expire => dsimp only; split <;> [split_ifs <;> rfl; rfl]
  | reset => dsimp only; split <;> [split_ifs <;> rfl; rfl]
  | quit => dsimp only; split <;> [split_ifs <;> rfl; rfl]

/-- What holds of a watcher that is run promptly.

* `fired`: no signal came within `idle` before it fired
* `waiting`: a signal that is not taken yet has come just now, and the deadline is
  `idle` after the others
* `latest`: the deadline is not later than that
* `current`: it has not passed -/
structure Inv (idle : ℤ) (w : Watchdog) : Prop where
  starting : w.pc = .starting → w.signaled = true ∧ ∀ t ∈ w.signals, t = w.now
  waiting : ∀ dl, w.pc = .waiting dl →
    ∀ t ∈ w.signals, t + idle ≤ dl ∨ (w.signaled = true ∧ t = w.now)
  latest : ∀ dl, w.pc = .waiting dl → ∃ t ∈ w.signals, dl ≤ t + idle
  current : ∀ dl, w.pc = .waiting dl → w.now ≤ dl
  signaled : w.signaled = true → w.pc ≠ .returned → w.now ∈ w.signals
  past : ∀ t ∈ w.signals, t ≤ w.now
  fired : ∀ t₀, w.fired = some t₀ → t₀ ≤ w.now ∧ ∀ t ∈ w.signals, t + idle ≤ t₀ ∨ t₀ ≤ t
  unfired : w.pc ≠ .returned → w.fired = none
  returned : w.pc = .returned → w.stopped = false → w.fired.isSome = true

theorem inv_begin (idle now : ℤ) : Inv idle (begin now) where
  starting _ := ⟨rfl, fun _ ht => List.mem_singleton.1 ht⟩
  waiting _ h := by cases h
  latest _ h := by cases h
  current _ h := by cases h
  signaled _ _ := List.mem_singleton_self _
  past _ ht := (List.mem_singleton.1 ht).le
  fired _ h := by cases h
  unfired _ := rfl
  returned h := by cases h

theorem inv_absent (idle now : ℤ) : Inv idle (absent now) where
  starting h := by cases h
  waiting _ h := by cases h
  latest _ h := by cases h
  current _ h := by cases h
  signaled h := by cases h
  past _ ht := by cases ht
  fired _ h := by cases h
  unfired h := absurd rfl h
  returned _ h := by cases h

/-- Time passes. -/
theorem Inv.tick (h : Inv idle w) {d : ℕ} (hp : w.Prompt (.tick d)) :
    Inv idle (step idle w (.tick d)) := by
  have hstay : d = 0 → Inv idle (step idle w (.tick d)) := by
    rintro rfl
    have hsame : step idle w (.tick 0) = w := by simp [step]
    rwa [hsame]
  have hlater : ∀ t ∈ w.signals, t ≤ w.now + d := fun t ht => by
    have := h.past t ht
    omega
  have hfired : ∀ t₀, w.fired = some t₀ →
      t₀ ≤ w.now + d ∧ ∀ t ∈ w.signals, t + idle ≤ t₀ ∨ t₀ ≤ t := fun t₀ ht₀ => by
    obtain ⟨hle, hall⟩ := h.fired t₀ ht₀
    exact ⟨by omega, hall⟩
  unfold Prompt at hp
  cases hpc : w.pc with
  | starting =>
    rw [hpc] at hp
    exact hstay hp
  | waiting dl =>
    rw [hpc] at hp
    rcases hp with hd | ⟨hsig, -, hle⟩
    · exact hstay hd
    · exact {
        starting := fun hs => by cases hpc.symm.trans hs
        waiting := fun dl' hdl t ht => by
          have htaken := (h.waiting dl' hdl t ht).resolve_right fun hnow => by
            rw [hsig] at hnow
            cases hnow.1
          exact Or.inl htaken
        latest := h.latest
        current := fun dl' hdl => by
          cases hpc.symm.trans hdl
          exact hle
        signaled := fun hs => by cases hsig.symm.trans hs
        past := hlater
        fired := hfired
        unfired := h.unfired
        returned := h.returned }
  | returned =>
    exact {
      starting := fun hs => by cases hpc.symm.trans hs
      waiting := fun dl hdl => by cases hpc.symm.trans hdl
      latest := fun dl hdl => by cases hpc.symm.trans hdl
      current := fun dl hdl => by cases hpc.symm.trans hdl
      signaled := fun _ hne => absurd hpc hne
      past := hlater
      fired := hfired
      unfired := h.unfired
      returned := h.returned }

/-- The party signals. -/
theorem Inv.signal (h : Inv idle w) : Inv idle (step idle w .signal) where
  starting hs := ⟨rfl, fun t ht => by
    rcases List.mem_cons.1 ht with rfl | ht
    · rfl
    · exact (h.starting hs).2 t ht⟩
  waiting dl hdl t ht := by
    rcases List.mem_cons.1 ht with rfl | ht
    · exact Or.inr ⟨rfl, rfl⟩
    · exact (h.waiting dl hdl t ht).imp_right fun hnow => ⟨rfl, hnow.2⟩
  latest dl hdl := by
    obtain ⟨t, ht, hle⟩ := h.latest dl hdl
    exact ⟨t, List.mem_cons_of_mem _ ht, hle⟩
  current := h.current
  signaled _ _ := List.mem_cons_self
  past t ht := by
    rcases List.mem_cons.1 ht with rfl | ht
    · exact le_rfl
    · exact h.past t ht
  fired t₀ ht₀ := by
    obtain ⟨hle, hall⟩ := h.fired t₀ ht₀
    refine ⟨hle, fun t ht => ?_⟩
    rcases List.mem_cons.1 ht with rfl | ht
    · exact Or.inr hle
    · exact hall t ht
  unfired := h.unfired
  returned := h.returned

/-- The party stops the watcher. -/
theorem Inv.stop (h : Inv idle w) : Inv idle (step idle w .stop) where
  starting := h.starting
  waiting := h.waiting
  latest := h.latest
  current := h.current
  signaled := h.signaled
  past := h.past
  fired := h.fired
  unfired := h.unfired
  returned _ hs := by cases hs

/-- The watcher sets its timer, with or without taking the signal: what was signaled so
far is due `idle` from now at the latest. -/
theorem Inv.arm (h : Inv idle w) (hidle : 0 ≤ idle) (hnow : w.now ∈ w.signals)
    (hpc : w.pc ≠ .returned) (b : Bool) :
    Inv idle { w with pc := .waiting (w.now + idle), signaled := b } where
  starting hs := by cases hs
  waiting dl hdl t ht := by
    cases hdl
    have := h.past t ht
    exact Or.inl (by omega)
  latest dl hdl := by
    cases hdl
    exact ⟨w.now, hnow, le_rfl⟩
  current dl hdl := by
    cases hdl
    exact Int.le_add_of_nonneg_right hidle
  signaled _ _ := hnow
  past := h.past
  fired := h.fired
  unfired _ := h.unfired hpc
  returned hs := by cases hs

/-- The watcher returns, because it fired or because it was stopped. -/
theorem Inv.leave (h : Inv idle w) {fired : Option ℤ}
    (hfired : ∀ t₀, fired = some t₀ →
      t₀ ≤ w.now ∧ ∀ t ∈ w.signals, t + idle ≤ t₀ ∨ t₀ ≤ t)
    (hend : w.stopped = false → fired.isSome = true) :
    Inv idle { w with pc := .returned, fired } where
  starting hs := by cases hs
  waiting _ hs := by cases hs
  latest _ hs := by cases hs
  current _ hs := by cases hs
  signaled _ hne := absurd rfl hne
  past := h.past
  fired := hfired
  unfired hne := absurd rfl hne
  returned _ := hend

theorem Inv.step (h : Inv idle w) (hidle : 0 ≤ idle) {e : Event} (hp : w.Prompt e) :
    Inv idle (step idle w e) := by
  cases e with
  | tick d => exact h.tick hp
  | signal => exact h.signal
  | stop => exact h.stop
  | start =>
    rw [Watchdog.step]
    split
    · rename_i hpc
      have hsig := (h.starting hpc).1
      have hne : w.pc ≠ .returned := by
        rw [hpc]
        exact Pc.noConfusion
      exact h.arm hidle (h.signaled hsig hne) hne w.signaled
    · exact h
  | expire =>
    rw [Watchdog.step]
    split
    · rename_i dl hpc
      split_ifs with hdue
      · refine h.leave (fun t₀ ht₀ => ?_) fun _ => rfl
        cases ht₀
        refine ⟨le_rfl, fun t ht => ?_⟩
        rcases h.waiting dl hpc t ht with hold | ⟨-, hjust⟩
        · exact Or.inl (hold.trans hdue)
        · exact Or.inr hjust.ge
      · exact h
    · exact h
  | reset =>
    rw [Watchdog.step]
    split
    · rename_i dl hpc
      split_ifs with hsig
      · have hne : w.pc ≠ .returned := by
          rw [hpc]
          exact Pc.noConfusion
        exact h.arm hidle (h.signaled hsig hne) hne false
      · exact h
    · exact h
  | quit =>
    rw [Watchdog.step]
    split
    · rename_i dl hpc
      split_ifs with hstop
      · refine h.leave h.fired fun hne => ?_
        rw [hstop] at hne
        cases hne
      · exact h
    · exact h

/-- **The watchdog is not late.** While it has neither fired nor been stopped, it was
signaled at most `idle` ago. -/
theorem Inv.not_late (h : Inv idle w) (hidle : 0 ≤ idle) (hfired : w.fired = none)
    (hstopped : w.stopped = false) : ∃ t ∈ w.signals, w.now ≤ t + idle := by
  cases hpc : w.pc with
  | starting =>
    have hne : w.pc ≠ .returned := by
      rw [hpc]
      exact Pc.noConfusion
    exact ⟨w.now, h.signaled (h.starting hpc).1 hne, Int.le_add_of_nonneg_right hidle⟩
  | waiting dl =>
    obtain ⟨t, ht, hle⟩ := h.latest dl hpc
    exact ⟨t, ht, (h.current dl hpc).trans hle⟩
  | returned =>
    have hsome := h.returned hpc hstopped
    rw [hfired] at hsome
    cases hsome

/-- How much the watcher can still do before it returns, when it is left alone. -/
def rank (w : Watchdog) : ℕ :=
  match w.pc with
  | .starting => 3
  | .waiting _ => if w.signaled then 2 else 1
  | .returned => 0

theorem rank_le (w : Watchdog) : w.rank ≤ 3 := by
  unfold rank
  cases w.pc with
  | starting => exact le_rfl
  | waiting dl => dsimp only; split_ifs <;> omega
  | returned => exact Nat.zero_le 3

theorem rank_of_waiting {dl : ℤ} (hpc : w.pc = .waiting dl) :
    w.rank = if w.signaled then 2 else 1 := by
  rw [rank, hpc]

theorem rank_pos_of_waiting {dl : ℤ} (hpc : w.pc = .waiting dl) : 0 < w.rank := by
  rw [rank_of_waiting hpc]
  split_ifs <;> decide

/-- A step of the watcher brings it nearer to its end. -/
theorem rank_step {e : Event} (he : e.own = true) (hne : step idle w e ≠ w) :
    (step idle w e).rank < w.rank := by
  cases e with
  | tick d => cases he
  | signal => cases he
  | stop => cases he
  | start =>
    cases hpc : w.pc with
    | starting =>
      simp only [step, hpc, rank]
      split_ifs <;> decide
    | waiting dl => simp [step, hpc] at hne
    | returned => simp [step, hpc] at hne
  | expire =>
    cases hpc : w.pc with
    | starting => simp [step, hpc] at hne
    | waiting dl =>
      by_cases hdue : dl ≤ w.now
      · simp only [step, hpc, hdue, if_true]
        exact rank_pos_of_waiting hpc
      · simp [step, hpc, hdue] at hne
    | returned => simp [step, hpc] at hne
  | reset =>
    cases hpc : w.pc with
    | starting => simp [step, hpc] at hne
    | waiting dl =>
      by_cases hsig : w.signaled = true
      · simp [step, hpc, hsig, rank]
      · simp [step, hpc, hsig] at hne
    | returned => simp [step, hpc] at hne
  | quit =>
    cases hpc : w.pc with
    | starting => simp [step, hpc] at hne
    | waiting dl =>
      by_cases hstop : w.stopped = true
      · simp only [step, hpc, hstop, if_true]
        exact rank_pos_of_waiting hpc
      · simp [step, hpc, hstop] at hne
    | returned => simp [step, hpc] at hne

/-- **A stopped watcher does not block.** Unless it has returned it can take a step. -/
theorem returned_of_stuck (idle : ℤ) (hstop : w.stopped = true)
    (hstuck : ∀ e, Event.own e = true → step idle w e = w) : w.pc = .returned := by
  cases hpc : w.pc with
  | starting =>
    have hstart := congrArg Watchdog.pc (hstuck .start rfl)
    simp [step, hpc] at hstart
  | waiting dl =>
    have hquit := congrArg Watchdog.pc (hstuck .quit rfl)
    simp [step, hpc, hstop] at hquit
  | returned => rfl

end Watchdog

end Lib
