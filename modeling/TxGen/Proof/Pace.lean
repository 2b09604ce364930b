import TxGen.Lib.Slots
import TxGen.Spec.Pace
import Mathlib.Algebra.BigOperators.Ring.Finset
import Mathlib.Tactic.Ring

/-!
# The rate is what was asked for

* `chainInterval_error`: the interval is that of the exact division but for a nanosecond
  and a relative error below `10⁻⁹`, although it is computed with doubles.
* `rate_is_bounded`: from any state on, with the rate set any number of times and chains
  started and ending at any time, there are no more broadcasts than the rate summed over
  time, one more for each chain and for each wait that has become too short, and a margin
  for the rounding of intervals.
* `rate_is_reached`: while `SetTPS` is not called, no chain ends and each builds its
  transactions, the chains come as near to the rate from their start on as the time their
  broadcasts take lets them.
-/

namespace TxGen.Pace

open Lib

/-! ## The interval -/

section Interval

variable {tps n : ℤ}

theorem leastNormal_le {q : ℚ} (h : 1 / 2 ^ 54 ≤ q) : Binary64.leastNormal ≤ q := by
  refine le_trans ?_ h
  rw [Binary64.leastNormal]
  calc (2 : ℚ) ^ (-1022 : ℤ) ≤ 2 ^ (-54 : ℤ) := zpow_le_zpow_right₀ (by norm_num) (by norm_num)
    _ = 1 / 2 ^ 54 := by norm_num

section Seconds

variable {q : ℚ}

/-- Nanoseconds for `q` seconds, with two roundings and a truncation. -/
def nanoseconds (q : ℚ) : ℤ := toDuration (Binary64.round (Binary64.round q * 10 ^ 9))

/-- Neither rounding comes near the limits of doubles. -/
theorem leastNormal_le_round (hlow : 1 / 2 ^ 53 ≤ q) :
    Binary64.leastNormal ≤ q ∧ Binary64.leastNormal ≤ Binary64.round q * 10 ^ 9 := by
  have hq : Binary64.leastNormal ≤ q := leastNormal_le (le_trans (by norm_num) hlow)
  have hr := Binary64.le_round hq
  refine ⟨hq, leastNormal_le ?_⟩
  norm_num at hlow hr ⊢
  linarith

theorem round_nanoseconds (hlow : 1 / 2 ^ 53 ≤ q) :
    Binary64.round (Binary64.round q * 10 ^ 9) ≤ q * (10 ^ 9 + 1) ∧
      q * (10 ^ 9 - 1) ≤ Binary64.round (Binary64.round q * 10 ^ 9) := by
  obtain ⟨hq, hr10⟩ := leastNormal_le_round hlow
  have hr := Binary64.le_round hq
  have hr' := Binary64.round_le hq
  have hp := Binary64.le_round hr10
  have hp' := Binary64.round_le hr10
  norm_num at hlow hr hr' hp hp' ⊢
  constructor <;> linarith

theorem nanoseconds_eq (hlow : 1 / 2 ^ 53 ≤ q) (hhigh : q ≤ 9 * 10 ^ 9) :
    nanoseconds q = ⌊Binary64.round (Binary64.round q * 10 ^ 9)⌋ := by
  have hp := (round_nanoseconds hlow).1
  refine if_pos ?_
  norm_num at hp ⊢
  linarith

theorem nanoseconds_error (hlow : 1 / 2 ^ 53 ≤ q) (hhigh : q ≤ 9 * 10 ^ 9) :
    (nanoseconds q : ℚ) ≤ q * (10 ^ 9 + 1) ∧ q * (10 ^ 9 - 1) - 1 ≤ nanoseconds q := by
  obtain ⟨hp, hp'⟩ := round_nanoseconds hlow
  have hfloor := Int.floor_le (Binary64.round (Binary64.round q * 10 ^ 9))
  have hceil := Int.lt_floor_add_one (Binary64.round (Binary64.round q * 10 ^ 9))
  rw [nanoseconds_eq hlow hhigh]
  constructor <;> linarith

/-- More seconds are not fewer nanoseconds. -/
theorem nanoseconds_mono {q' : ℚ} (hlow : 1 / 2 ^ 53 ≤ q) (hle : q ≤ q') (hhigh : q' ≤ 9 * 10 ^ 9) :
    nanoseconds q ≤ nanoseconds q' := by
  obtain ⟨hq, hr10⟩ := leastNormal_le_round hlow
  rw [nanoseconds_eq hlow (hle.trans hhigh), nanoseconds_eq (hlow.trans hle) hhigh]
  refine Int.floor_le_floor (Binary64.round_mono hr10 ?_)
  exact mul_le_mul_of_nonneg_right (Binary64.round_mono hq hle) (by norm_num)

end Seconds

section Quotient

variable (hn : 1 ≤ n) (hn' : n ≤ 9 * 10 ^ 9) (ht : 1 ≤ tps) (ht' : tps ≤ 2 ^ 53)

include hn hn' ht ht'

theorem chainInterval_eq : chainInterval tps n = nanoseconds (n / tps) := by
  have hexact {m : ℤ} (hm : 1 ≤ m) (hm' : m ≤ 2 ^ 53) : Binary64.round m = m := by
    obtain ⟨k, rfl⟩ := Int.eq_ofNat_of_zero_le (by omega : 0 ≤ m)
    have hk : k ≤ 2 ^ 53 := by exact_mod_cast hm'
    rw [Int.cast_natCast]
    exact Binary64.round_natCast hk
  rw [chainInterval, if_neg (by omega), hexact hn (by omega), hexact ht ht', nanoseconds]

/-- How many seconds an interval can be. -/
theorem quotient_range : (1 : ℚ) / 2 ^ 53 ≤ n / tps ∧ (n : ℚ) / tps ≤ 9 * 10 ^ 9 := by
  have hn1 : (1 : ℚ) ≤ n := by exact_mod_cast hn
  have hnq : (n : ℚ) ≤ 9 * 10 ^ 9 := by exact_mod_cast hn'
  have ht1 : (1 : ℚ) ≤ tps := by exact_mod_cast ht
  have htq : (tps : ℚ) ≤ 2 ^ 53 := by exact_mod_cast ht'
  exact ⟨div_le_div₀ (by linarith) hn1 (by linarith) htq,
    (div_le_self (by linarith) ht1).trans hnq⟩

/-- **The interval is accurate.** The rate times the interval is the number of chains in
seconds, up to the two of them: for each chain a nanosecond of rounding, and for the
truncation the rate. -/
theorem chainInterval_error : |tps * chainInterval tps n - n * 10 ^ 9| ≤ n + tps := by
  have htpos : (0 : ℚ) < tps := by exact_mod_cast ht
  obtain ⟨hlow, hhigh⟩ := quotient_range hn hn' ht ht'
  obtain ⟨hupper, hlower⟩ := nanoseconds_error hlow hhigh
  rw [← chainInterval_eq hn hn' ht ht'] at hupper hlower
  -- back to integers, with the quotient multiplied out
  have hcancel : (tps : ℚ) * (n / tps) = n := mul_div_cancel₀ _ htpos.ne'
  have hup : (tps : ℚ) * chainInterval tps n ≤ n * 10 ^ 9 + n := by
    calc (tps : ℚ) * chainInterval tps n ≤ tps * (n / tps * (10 ^ 9 + 1)) :=
          mul_le_mul_of_nonneg_left hupper htpos.le
      _ = (tps * (n / tps)) * (10 ^ 9 + 1) := by ring
      _ = n * 10 ^ 9 + n := by rw [hcancel]; ring
  have hdown : (n : ℚ) * 10 ^ 9 - n - tps ≤ (tps : ℚ) * chainInterval tps n := by
    calc (n : ℚ) * 10 ^ 9 - n - tps = (tps * (n / tps)) * (10 ^ 9 - 1) - tps := by
          rw [hcancel]; ring
      _ = (tps : ℚ) * (n / tps * (10 ^ 9 - 1) - 1) := by ring
      _ ≤ tps * chainInterval tps n := mul_le_mul_of_nonneg_left hlower htpos.le
  have hupZ : tps * chainInterval tps n ≤ n * 10 ^ 9 + n := by exact_mod_cast hup
  have hdownZ : n * 10 ^ 9 - n - tps ≤ tps * chainInterval tps n := by exact_mod_cast hdown
  rw [abs_le]
  constructor <;> omega

theorem chainInterval_nonneg : 0 ≤ chainInterval tps n := by
  have herr := (abs_le.1 (chainInterval_error hn hn' ht ht')).1
  by_contra hneg
  have hmul : tps * chainInterval tps n ≤ tps * (-1) :=
    mul_le_mul_of_nonneg_left (by omega) (by omega)
  omega

/-- With fewer chains an interval is no longer. -/
theorem chainInterval_mono {m : ℤ} (hm : 1 ≤ m) (hle : m ≤ n) :
    chainInterval tps m ≤ chainInterval tps n := by
  have htpos : (0 : ℚ) < tps := by exact_mod_cast ht
  have hquot : (m : ℚ) / tps ≤ n / tps :=
    div_le_div_of_nonneg_right (by exact_mod_cast hle) htpos.le
  rw [chainInterval_eq hm (hle.trans hn') ht ht', chainInterval_eq hn hn' ht ht']
  exact nanoseconds_mono (quotient_range hm (hle.trans hn') ht ht').1 hquot
    (quotient_range hn hn' ht ht').2

end Quotient

/-- What a broadcast is counted for when the rate is at most `limit`, in billionths: a
little less than full, for the rounding of intervals. -/
def price (limit : ℤ) : ℤ := 10 ^ 9 - (limit + 1)

/-- With a rate of at most `limit` an interval leaves no room for more broadcasts than the
rate allows. -/
theorem le_mul_chainInterval {limit : ℤ} (hn : 1 ≤ n) (hn' : n ≤ 9 * 10 ^ 9) (ht : 1 ≤ tps)
    (hlimit : tps ≤ limit) (hpos : 0 < price limit) :
    price limit * n ≤ tps * chainInterval tps n := by
  simp only [price] at hpos ⊢
  have herr := (abs_le.1 (chainInterval_error hn hn' ht (by omega))).1
  have hle : limit * 1 ≤ limit * n := mul_le_mul_of_nonneg_left hn (by omega)
  linarith

end Interval

/-! ## What an action does -/

/-- The effect of an action of chain `c`. -/
inductive Effect (s : State) : Chain → Chain → Prop
  | idle (c : Chain) : Effect s c c
  | read {c : Chain} {first : Bool} (h : c.pc = .awake first) :
    Effect s c { c with pc := s.waitActive first, woken := false, stale := false }
  | wait {c : Chain} {first : Bool} {rate : ℤ} (h : c.pc = .ready first rate) (jitter : ℤ) :
    Effect s c { c with pc := s.wait first rate jitter }
  | timer {c : Chain} {first : Bool} {begun interval : ℤ} (h : c.pc = .sleep first begun interval)
      (hover : begun + interval ≤ s.now) : Effect s c { c with pc := .due }
  | unpause {c : Chain} {first : Bool} (h : c.pc = .paused first) (hwoken : c.woken = true) :
    Effect s c { c with pc := .awake first }
  | restart {c : Chain} {first : Bool} {begun interval : ℤ} (h : c.pc = .sleep first begun interval)
      (hwoken : c.woken = true) : Effect s c { c with pc := .awake first }
  | broadcast {c : Chain} (h : c.pc = .due) :
    Effect s c { c with pc := .sending s.now, hops := c.hops + 1 }
  | skip {c : Chain} (h : c.pc = .due) : Effect s c { c with pc := .awake false }
  | returned {c : Chain} {begun : ℤ} (h : c.pc = .sending begun) :
    Effect s c { c with pc := .awake false }
  | exit (c : Chain) : Effect s c { c with pc := .ended }

theorem act_effect (s : State) (c : Chain) (a : Action) : Effect s c (s.act c a) := by
  cases a with
  | read =>
    simp only [State.act]
    split
    case h_1 first h => exact .read h
    case h_2 => exact .idle c
  | wait jitter =>
    simp only [State.act]
    split
    case h_1 first rate h => exact .wait h jitter
    case h_2 => exact .idle c
  | timer =>
    simp only [State.act]
    split
    case h_1 first begun interval h =>
      split_ifs with hover
      · exact .timer h hover
      · exact .idle c
    case h_2 => exact .idle c
  | restart =>
    simp only [State.act]
    split
    case h_1 first h =>
      split_ifs with hwoken
      · exact .unpause h hwoken
      · exact .idle c
    case h_2 first begun interval h =>
      split_ifs with hwoken
      · exact .restart h hwoken
      · exact .idle c
    case h_3 => exact .idle c
  | broadcast =>
    simp only [State.act]
    split
    case h_1 h => exact .broadcast h
    case h_2 => exact .idle c
  | skip =>
    simp only [State.act]
    split
    case h_1 h => exact .skip h
    case h_2 => exact .idle c
  | returned =>
    simp only [State.act]
    split
    case h_1 begun h => exact .returned h
    case h_2 => exact .idle c
  | exit => exact .exit c

theorem Effect.hops_le {s : State} {c c' : Chain} (h : Effect s c c') : c.hops ≤ c'.hops := by
  cases h with
  | broadcast h => exact Nat.le_succ _
  | _ => exact le_rfl

/-- Chains close no channel. -/
theorem Effect.woken {s : State} {c c' : Chain} (h : Effect s c c') (hw : c.woken = false) :
    c'.woken = false := by
  cases h with
  | read h => rfl
  | _ => exact hw

/-! ## The active chains -/

/-- A chain that has not returned. -/
def Chain.alive (c : Chain) : Bool := c.pc ≠ .ended

theorem Effect.alive {s : State} {c c' : Chain} (h : Effect s c c') (halive : c'.alive) :
    c.alive := by
  cases h with
  | idle => exact halive
  | exit => cases halive
  | _ => simp [Chain.alive, *]

/-- `chainsActive` counts the chains that have not returned. -/
def State.Counted (s : State) : Prop := s.chainsActive = s.chains.countP Chain.alive

theorem State.Counted.pos {s : State} (h : s.Counted) {c : Chain} (hc : c ∈ s.chains)
    (halive : c.alive) : 1 ≤ s.chainsActive := by
  rw [h]
  exact_mod_cast List.countP_pos_iff.2 ⟨c, hc, halive⟩

theorem State.Counted.step {s : State} (h : s.Counted) (e : Event) : (s.step e).Counted := by
  cases e with
  | tick d => exact h
  | spawn =>
    simp only [State.Counted, State.step, List.countP_append, List.countP_singleton,
      List.countP_map]
    rw [h]
    rfl
  | setTPS tps | wake =>
    rw [State.Counted, State.step, List.countP_map]
    exact h
  | chain i a =>
    cases hi : s.chains[i]? with
    | none =>
      simp only [State.step, hi]
      exact h
    | some c =>
      obtain ⟨hlt, hget⟩ := List.getElem?_eq_some_iff.1 hi
      have hdead := (act_effect s c a).alive
      have halive := h.pos (List.mem_of_getElem? hi)
      simp only [State.Counted, State.step, hi, List.countP_set hlt, hget]
      rw [h] at halive ⊢
      simp only [Chain.alive, decide_eq_true_eq] at halive hdead ⊢
      split_ifs <;> grind

/-- A state of a run. -/
def State.Reached (s : State) : Prop := ∃ tps es, s = (State.start tps).run es

theorem State.Reached.start (tps : ℤ) : (State.start tps).Reached := ⟨tps, [], rfl⟩

theorem State.Reached.counted {s : State} (h : s.Reached) : s.Counted := by
  obtain ⟨tps, es, rfl⟩ := h
  exact Along.inv (C := fun _ _ => True) (fun s e hs _ => hs.step e)
    (.of_forall fun _ _ _ => trivial) rfl

/-- Chains that have returned stay where they are. -/
theorem length_le_step (s : State) (e : Event) : s.chains.length ≤ (s.step e).chains.length := by
  cases e with
  | tick d => exact le_rfl
  | spawn | setTPS tps | wake => simp [State.step]
  | chain i a =>
    simp only [State.step]
    split <;> simp

theorem length_le_run (s : State) (es : List Event) :
    s.chains.length ≤ (s.run es).chains.length :=
  Along.inv (C := fun _ _ => True) (I := fun t => s.chains.length ≤ t.chains.length)
    (fun t e h _ => h.trans (length_le_step t e)) (.of_forall fun _ _ _ => trivial) le_rfl

/-! ## No faster -/

section Bounded

/-- What the rate and the number of chains are. -/
structure Limits (limit : ℤ) (s : State) : Prop where
  price_pos : 0 < price limit
  tps : s.tps ≤ limit
  chains : s.chains.length ≤ 9 * 10 ^ 9
  counted : s.Counted

/-- Chain `c` has not saved up for its next broadcast: it has made one, or it waits and has
saved up the part `x` of the wait that is over, or more. As long as the wait is not stale,
it saves up no faster than at an equal part of the rate. -/
def Saving (limit : ℤ) (s : State) (x : ℚ) (c : Chain) : Prop :=
  match c.pc with
  | .awake first | .paused first => first = false
  | .ready first rate => first = false ∧ 1 ≤ rate ∧ rate ≤ limit ∧ (c.stale = false → rate = s.tps)
  | .sleep first begun interval => first = false ∧ (c.stale = false →
      begun ≤ s.now ∧ s.now < begun + interval ∧
        (price limit * (s.now - begun) : ℤ) ≤ x * interval ∧
        price limit * s.chainsActive ≤ s.tps * interval)
  | .due => False
  | .sending _ | .ended => True

/-- Chain `c` has saved up `x` for its next broadcast, or more. -/
def Saved (limit : ℤ) (s : State) (x : ℚ) (c : Chain) : Prop :=
  0 ≤ x ∧ (price limit ≤ x ∨ Saving limit s x c)

variable {limit : ℤ} {s s' : State} {x : ℚ} {c c' : Chain}

theorem Saved.of_ended (hended : c.alive = false) : Saved limit s 0 c := by
  have hpc : c.pc = .ended := by simpa [Chain.alive] using hended
  refine ⟨le_rfl, .inr ?_⟩
  rw [Saving, hpc]
  trivial

/-- Other events let a chain save up what it has saved up. -/
theorem Saved.keep (h : Saved limit s x c)
    (hsaving : Saving limit s x c → Saving limit s' x c') : Saved limit s' x c' :=
  ⟨h.1, h.2.imp_right hsaving⟩

/-- Time saves up. -/
theorem Saved.tick (hlimits : Limits limit s) (hc : c ∈ s.chains) (halive : c.alive)
    (h : Saved limit s x c) (d : ℕ) :
    Saved limit (s.step (.tick d)) (x + (max s.tps 0 : ℤ) * d / s.chainsActive) c := by
  obtain ⟨hx, hsaved⟩ := h
  have hact : (0 : ℚ) < s.chainsActive := by exact_mod_cast hlimits.counted.pos hc halive
  have hmax : (0 : ℚ) ≤ (max s.tps 0 : ℤ) := by exact_mod_cast le_max_right s.tps 0
  have hshare : (0 : ℚ) ≤ (max s.tps 0 : ℤ) * d / s.chainsActive := by positivity
  refine ⟨add_nonneg hx hshare, ?_⟩
  rcases hsaved with hall | hsaving
  · exact .inl (hall.trans (le_add_of_nonneg_right hshare))
  obtain ⟨pc, woken, stale, born, hops⟩ := c
  cases pc with
  | sleep first begun interval =>
    obtain ⟨hfirst, hfair⟩ := hsaving
    cases hstale : stale with
    | true => exact .inr ⟨hfirst, fun h => by cases h⟩
    | false =>
      obtain ⟨hbegun, hlt, hpart, hrate⟩ := hfair hstale
      have hint : (0 : ℚ) < interval := by exact_mod_cast (by omega : 0 < interval)
      -- what is added is at least the time's part of the price
      have hadd : (price limit : ℚ) * d ≤ (max s.tps 0 : ℤ) * d / s.chainsActive * interval := by
        have hle : price limit * s.chainsActive ≤ max s.tps 0 * interval :=
          hrate.trans (mul_le_mul_of_nonneg_right (le_max_left _ _) (by omega))
        rw [div_mul_eq_mul_div, le_div_iff₀ hact]
        calc (price limit : ℚ) * d * s.chainsActive
            = (price limit * s.chainsActive : ℤ) * d := by push_cast; ring
          _ ≤ (max s.tps 0 * interval : ℤ) * d :=
              mul_le_mul_of_nonneg_right (by exact_mod_cast hle) (by positivity)
          _ = (max s.tps 0 : ℤ) * d * interval := by push_cast; ring
      have hsum : (price limit * (s.now + d - begun) : ℤ) ≤
          (x + (max s.tps 0 : ℤ) * d / s.chainsActive) * interval := by
        push_cast at hpart hadd ⊢
        linarith
      by_cases hover : s.now + d < begun + interval
      · exact .inr ⟨hfirst, fun _ => ⟨hbegun.trans (by simp [State.step]), hover, hsum, hrate⟩⟩
      · -- the wait is over, and all is saved up
        left
        refine le_of_mul_le_mul_right (le_trans ?_ hsum) hint
        have hle : price limit * interval ≤ price limit * (s.now + d - begun) :=
          mul_le_mul_of_nonneg_left (by omega) hlimits.price_pos.le
        exact_mod_cast hle
  | _ => exact .inr hsaving

/-- A chain whose wait becomes stale saves up on. -/
theorem Saving.aged (h : Saving limit s x c) : Saving limit s' x { c with stale := true } := by
  obtain ⟨pc, woken, stale, born, hops⟩ := c
  cases pc with
  | ready first rate => exact ⟨h.1, h.2.1, h.2.2.1, fun h => by cases h⟩
  | sleep first begun interval => exact ⟨h.1, fun h => by cases h⟩
  | _ => exact h

/-- Fewer chains are all the more fair. -/
theorem Saving.mono (h : Saving limit s x c) (hprice : 0 ≤ price limit) (hnow : s'.now = s.now)
    (htps : s'.tps = s.tps) (hactive : s'.chainsActive ≤ s.chainsActive) :
    Saving limit s' x c := by
  simp only [Saving, hnow, htps] at h ⊢
  obtain ⟨pc, woken, stale, born, hops⟩ := c
  cases pc with
  | sleep first begun interval =>
    refine ⟨h.1, fun hstale => ?_⟩
    obtain ⟨hbegun, hlt, hpart, hrate⟩ := h.2 hstale
    exact ⟨hbegun, hlt, hpart, (mul_le_mul_of_nonneg_left hactive hprice).trans hrate⟩
  | _ => exact h

theorem Limits.chainsActive_le (h : Limits limit s) : s.chainsActive ≤ 9 * 10 ^ 9 := by
  have hle := List.countP_le_length (p := Chain.alive) (l := s.chains)
  have hlen := h.chains
  rw [h.counted]
  omega

/-- A chain that begins to wait has nothing saved up, and a wait before it. -/
theorem Limits.wait (h : Limits limit s) (hx : 0 ≤ x) (hactive : 1 ≤ s.chainsActive) {first : Bool}
    {rate : ℤ} (hpc : c.pc = .ready first rate) (hsaving : Saving limit s x c) (jitter : ℤ) :
    Saving limit s x { c with pc := s.wait first rate jitter } := by
  simp only [Saving, hpc] at hsaving
  obtain ⟨hfirst, hrate, hlimit, hfresh⟩ := hsaving
  subst hfirst
  have hlow := le_mul_chainInterval hactive h.chainsActive_le hrate hlimit h.price_pos
  have hpos : 0 < price limit * s.chainsActive := mul_pos h.price_pos (by omega)
  have hint : 0 < chainInterval rate s.chainsActive := by
    by_contra hnone
    have hneg : rate * chainInterval rate s.chainsActive ≤ 0 :=
      mul_nonpos_of_nonneg_of_nonpos (by omega) (by omega)
    omega
  simp only [State.wait, Bool.false_eq_true, if_false, if_neg (not_le.2 hint), Saving]
  refine ⟨trivial, fun hstale => ⟨le_rfl, by omega, ?_, ?_⟩⟩
  · rw [sub_self, mul_zero, Int.cast_zero]
    exact mul_nonneg hx (by exact_mod_cast hint.le)
  · rw [← hfresh hstale]
    exact hlow

/-- What a chain pays when it becomes `c'`, for a broadcast, less what it is given for the
end of a stale wait. -/
def paid (limit : ℤ) (c c' : Chain) : ℚ :=
  (c'.hops - c.hops : ℕ) * price limit -
    if c.resting ∧ c.stale ∧ c'.pc = .due then (price limit : ℚ) else 0

theorem Saved.free (h : Saved limit s x c) (hhops : c'.hops = c.hops)
    (hdue : ¬(c.resting ∧ c.stale ∧ c'.pc = .due))
    (hsaving : Saving limit s x c → Saving limit s x c') :
    Saved limit s (x - paid limit c c') c' := by
  have hpaid : paid limit c c' = 0 := by
    rw [paid, if_neg hdue, hhops]
    simp
  rw [hpaid, sub_zero]
  exact h.keep hsaving

/-- A broadcast is paid for, and nothing else a chain does needs anything. -/
theorem Limits.act (h : Limits limit s) (hc : c ∈ s.chains) (heff : Effect s c c')
    (hsaved : Saved limit s x c) : Saved limit s (x - paid limit c c') c' := by
  have hprice : (0 : ℚ) < price limit := by exact_mod_cast h.price_pos
  cases heff with
  | idle =>
    refine hsaved.free rfl (fun hdue => ?_) id
    simp [Chain.resting, hdue.2.2] at hdue
  | read hpc =>
    refine hsaved.free rfl (fun hdue => ?_) fun hsaving => ?_
    · simp [Chain.resting, hpc] at hdue
    · simp only [Saving, hpc] at hsaving
      simp only [State.waitActive]
      split_ifs with htps
      · exact hsaving
      · exact ⟨hsaving, by omega, h.tps, fun _ => rfl⟩
  | wait hpc jitter =>
    refine hsaved.free rfl (fun hdue => ?_) fun hsaving => ?_
    · simp [Chain.resting, hpc] at hdue
    · have hactive := h.counted.pos hc (by simp [Chain.alive, hpc])
      exact h.wait hsaved.1 hactive hpc hsaving jitter
  | timer hpc hover =>
    obtain ⟨hx, hall | hsaving⟩ := hsaved
    · -- all was saved up
      have hpaid : paid limit c { c with pc := .due } ≤ 0 := by
        rw [paid]
        split_ifs <;> simp [hprice.le]
      exact ⟨by linarith, .inl (by linarith)⟩
    · simp only [Saving, hpc] at hsaving
      obtain ⟨hfirst, hfair⟩ := hsaving
      -- a wait that is over is stale
      have hstale : c.stale = true := by
        by_contra hstale
        have hlt := (hfair (by simpa using hstale)).2.1
        omega
      have hpaid : paid limit c { c with pc := .due } = -price limit := by
        simp [paid, Chain.resting, hpc, hfirst, hstale]
      rw [hpaid]
      exact ⟨by linarith, .inl (by linarith)⟩
  | unpause hpc =>
    refine hsaved.free rfl (by simp) fun hsaving => ?_
    simpa only [Saving, hpc] using hsaving
  | restart hpc =>
    refine hsaved.free rfl (by simp) fun hsaving => ?_
    simp only [Saving, hpc] at hsaving ⊢
    exact hsaving.1
  | broadcast hpc =>
    have hall : price limit ≤ x := hsaved.2.resolve_right (by simp [Saving, hpc])
    have hpaid :
        paid limit c { c with pc := .sending s.now, hops := c.hops + 1 } = price limit := by
      simp [paid]
    rw [hpaid]
    exact ⟨sub_nonneg.2 hall, .inr trivial⟩
  | skip hpc => exact hsaved.free rfl (by simp) fun _ => rfl
  | returned hpc => exact hsaved.free rfl (by simp) fun _ => rfl
  | exit => exact hsaved.free rfl (by simp) fun _ => trivial

/-- The ledger of a run: what was broadcast, at its price, and what the chains have saved
up, with `l` as the chains and their savings, was there, has been granted, or is excess. -/
structure Ledger (funds : ℚ) (limit : ℤ) (s : State) (l : List (Chain × ℚ)) : Prop where
  limits : Limits limit s
  chains : l.map Prod.fst = s.chains
  saved : ∀ p ∈ l, Saved limit s p.2 p.1
  balance : (s.sent : ℚ) * price limit + (l.map Prod.snd).sum ≤
    funds + s.granted + s.excess * price limit

/-- An account to which `x` is added if the chain has `p`. -/
def deposit (p : Chain → Bool) (x : ℚ) (a : Chain × ℚ) : Chain × ℚ :=
  (a.1, a.2 + if p a.1 then x else 0)

namespace Ledger

variable {funds : ℚ} {l : List (Chain × ℚ)}

theorem mem (h : Ledger funds limit s l) {p : Chain × ℚ} (hp : p ∈ l) : p.1 ∈ s.chains := by
  rw [← h.chains]
  exact List.mem_map_of_mem hp

theorem map_deposit (p : Chain → Bool) (x : ℚ) :
    (l.map (deposit p x)).map Prod.fst = l.map Prod.fst := by
  rw [List.map_map]
  rfl

/-- What deposits add to the savings. -/
theorem sum_deposit (h : l.map Prod.fst = s.chains) (p : Chain → Bool) (x : ℚ) :
    ((l.map (deposit p x)).map Prod.snd).sum =
      (l.map Prod.snd).sum + s.chains.countP p * x := by
  rw [← h, List.map_map]
  clear h
  induction l with
  | nil => simp
  | cons a l ih =>
    simp only [List.map_cons, List.sum_cons, ih, List.countP_cons, Function.comp_apply, deposit]
    split_ifs <;> push_cast <;> ring

/-- Every chain that is active begins with what a broadcast costs. -/
theorem start (h : Limits limit s) :
    Ledger ((s.sent + s.chainsActive) * price limit - s.granted - s.excess * price limit) limit s
      ((s.chains.map fun c => (c, 0)).map (deposit Chain.alive (price limit))) := by
  have hprice : (0 : ℚ) < price limit := by exact_mod_cast h.price_pos
  have hfst : (s.chains.map fun c => (c, (0 : ℚ))).map Prod.fst = s.chains := by
    simp [List.map_map, Function.comp_def]
  refine ⟨h, (map_deposit _ _).trans hfst, ?_, ?_⟩
  · simp only [List.forall_mem_map, deposit]
    intro c _
    split_ifs with halive
    · exact ⟨by simpa using hprice.le, .inl (by simp)⟩
    · rw [add_zero]
      exact .of_ended (by simpa using halive)
  · have hzero : ((s.chains.map fun c => (c, (0 : ℚ))).map Prod.snd).sum = 0 := by
      simp [List.map_map, Function.comp_def]
    rw [sum_deposit hfst, hzero, h.counted]
    push_cast
    linarith

/-- What time grants is shared among the active chains. -/
theorem tick (h : Ledger funds limit s l) (d : ℕ) :
    ∃ l', Ledger funds limit (s.step (.tick d)) l' := by
  set share : ℚ := (max s.tps 0 : ℤ) * d / s.chainsActive with hshare
  refine ⟨l.map (deposit Chain.alive share), ⟨h.limits.price_pos, h.limits.tps, h.limits.chains,
    h.limits.counted⟩, (map_deposit _ _).trans h.chains, ?_, ?_⟩
  · simp only [List.forall_mem_map, deposit]
    intro p hp
    split_ifs with halive
    · exact (h.saved p hp).tick h.limits (h.mem hp) halive d
    · have hended : p.1.pc = .ended := by simpa [Chain.alive] using halive
      rw [add_zero]
      exact ⟨(h.saved p hp).1, .inr (by simp [Saving, hended])⟩
  · have hcast : ((s.chains.countP Chain.alive : ℕ) : ℚ) = s.chainsActive := by
      rw [h.limits.counted, Int.cast_natCast]
    have hmax : (0 : ℚ) ≤ (max s.tps 0 : ℤ) := by exact_mod_cast le_max_right s.tps 0
    have hsum : s.chains.countP Chain.alive * share ≤ (max s.tps 0 : ℤ) * d := by
      rw [hcast, hshare]
      rcases eq_or_ne (s.chainsActive : ℚ) 0 with hzero | hne
      · rw [hzero, zero_mul]
        positivity
      · rw [mul_div_cancel₀ _ hne]
    have hbalance := h.balance
    rw [sum_deposit h.chains]
    simp only [State.step, Int.cast_add, Int.cast_mul, Int.cast_natCast]
    linarith

/-- When the rate is stored, all waits are stale. -/
theorem setTPS (h : Ledger funds limit s l) {tps : ℤ} (htps : tps ≤ limit) :
    ∃ l', Ledger funds limit (s.step (.setTPS tps)) l' := by
  refine ⟨l.map fun p => ({ p.1 with stale := true }, p.2), ⟨h.limits.price_pos, htps,
    (List.length_map _).trans_le h.limits.chains, h.limits.counted.step _⟩, ?_, ?_, ?_⟩
  · simp only [State.step, ← h.chains, List.map_map]
    rfl
  · simp only [List.forall_mem_map]
    exact fun p hp => (h.saved p hp).keep .aged
  · rw [List.map_map]
    exact h.balance

theorem wake (h : Ledger funds limit s l) : ∃ l', Ledger funds limit (s.step .wake) l' := by
  refine ⟨l.map fun p => ({ p.1 with woken := true }, p.2), ⟨h.limits.price_pos, h.limits.tps,
    (List.length_map _).trans_le h.limits.chains, h.limits.counted.step _⟩, ?_, ?_, ?_⟩
  · simp only [State.step, ← h.chains, List.map_map]
    rfl
  · simp only [List.forall_mem_map]
    exact fun p hp => (h.saved p hp).keep id
  · rw [List.map_map]
    exact h.balance

/-- A chain that is started is given what a broadcast costs, and all waits are stale. -/
theorem spawn (h : Ledger funds limit s l)
    (hlen : (s.step .spawn).chains.length ≤ 9 * 10 ^ 9) :
    ∃ l', Ledger funds limit (s.step .spawn) l' := by
  have hprice : (0 : ℚ) < price limit := by exact_mod_cast h.limits.price_pos
  refine ⟨l.map (fun p => ({ p.1 with stale := true }, p.2)) ++
      [((⟨.awake true, false, false, s.now, 0⟩ : Chain), (price limit : ℚ))],
    ⟨h.limits.price_pos, h.limits.tps, hlen, h.limits.counted.step _⟩, ?_, ?_, ?_⟩
  · simp only [State.step, ← h.chains, List.map_append, List.map_map]
    rfl
  · simp only [List.forall_mem_append, List.forall_mem_map, List.forall_mem_singleton]
    exact ⟨fun p hp => (h.saved p hp).keep .aged, hprice.le, .inl le_rfl⟩
  · have hbalance := h.balance
    have hsnd : ((l.map fun p => (({ p.1 with stale := true } : Chain), p.2)).map Prod.snd).sum =
        (l.map Prod.snd).sum := by
      rw [List.map_map]
      rfl
    simp only [List.map_append, List.sum_append, hsnd, State.step, List.map_singleton,
      List.sum_singleton]
    push_cast
    linarith

theorem chain (h : Ledger funds limit s l) (i : ℕ) (a : Action) :
    ∃ l', Ledger funds limit (s.step (.chain i a)) l' := by
  have hcounted := h.limits.counted.step (.chain i a)
  cases hi : l[i]? with
  | none =>
    have hnone : s.chains[i]? = none := by simp [← h.chains, hi]
    refine ⟨l, ?_⟩
    simp only [State.step, hnone]
    exact h
  | some p =>
    obtain ⟨c, x⟩ := p
    have hp := List.mem_of_getElem? hi
    have hc : s.chains[i]? = some c := by simp [← h.chains, hi]
    have heff := act_effect s c a
    simp only [State.step, hc] at hcounted ⊢
    generalize s.act c a = c' at heff hcounted ⊢
    have hsaved := h.limits.act (h.mem hp) heff (h.saved _ hp)
    have hle : (if c.pc ≠ .ended ∧ c'.pc = .ended then s.chainsActive - 1 else s.chainsActive) ≤
        s.chainsActive := by
      split_ifs <;> omega
    refine ⟨l.set i (c', x - paid limit c c'), ⟨h.limits.price_pos, h.limits.tps,
      List.length_set.trans_le h.limits.chains, hcounted⟩, ?_, ?_, ?_⟩
    · rw [List.map_set, h.chains]
    · refine forall_set (fun q hq => (h.saved q hq).keep fun hs => ?_) (hsaved.keep fun hs => ?_)
      · exact hs.mono h.limits.price_pos.le rfl rfl hle
      · exact hs.mono h.limits.price_pos.le rfl rfl hle
    · have hsum := sum_map_set Prod.snd hi (b := (c', x - paid limit c c'))
      have hbalance := h.balance
      dsimp only [paid] at hsum ⊢
      split_ifs at hsum ⊢ <;> push_cast <;> linarith

/-- **Every event keeps the ledger.** -/
theorem step (h : Ledger funds limit s l) {e : Event} (he : s.Within limit e)
    (hlen : (s.step e).chains.length ≤ 9 * 10 ^ 9) : ∃ l', Ledger funds limit (s.step e) l' := by
  cases e with
  | tick d => exact h.tick d
  | spawn => exact h.spawn hlen
  | setTPS tps => exact h.setTPS he
  | wake => exact h.wake
  | chain i a => exact h.chain i a

end Ledger

/-- **The rate is never exceeded.** From any state on, broadcasts are within the rate
summed over time, where each is counted for a billion but for the rate and one more. Not
counted are one for each chain that is active at the beginning, the first one of each chain
that is started, and those that follow a wait which ended although a chain was started or
the rate stored since it began. -/
theorem rate_is_bounded (hs : s.Reached) (hlimit : limit + 1 < 10 ^ 9) (htps : s.tps ≤ limit)
    {es : List Event} (hes : Along State.step (State.Within limit) s es)
    (hlen : (s.run es).chains.length ≤ 9 * 10 ^ 9) :
    ((s.run es).sent - s.sent - s.chainsActive - ((s.run es).excess - s.excess) : ℤ) *
        (10 ^ 9 - (limit + 1)) ≤ (s.run es).granted - s.granted := by
  have hprice : 0 < price limit := by
    rw [price]
    omega
  have hlimits : Limits limit s := ⟨hprice, htps, (length_le_run s es).trans hlen, hs.counted⟩
  obtain ⟨l, hl⟩ : ∃ l, Ledger ((s.sent + s.chainsActive) * price limit - s.granted -
      s.excess * price limit) limit (s.run es) l :=
    Along.inv_of_later (F := fun t : State => t.chains.length ≤ 9 * 10 ^ 9)
      (I := fun t => ∃ l, Ledger _ limit t l) (fun t e h => (length_le_step t e).trans h)
      (fun t e ⟨l, hl⟩ he h => hl.step he h) hes ⟨_, .start hlimits⟩ hlen
  have hbalance := hl.balance
  have hnonneg : 0 ≤ (l.map Prod.snd).sum := by
    refine List.sum_nonneg ?_
    simp only [List.forall_mem_map]
    exact fun p hp => (hl.saved p hp).1
  have hq : ((s.run es).sent : ℚ) * price limit ≤
      (s.sent + s.chainsActive) * price limit - s.granted - s.excess * price limit +
        (s.run es).granted + (s.run es).excess * price limit := by
    linarith
  have hz : ((s.run es).sent : ℤ) * price limit ≤
      (s.sent + s.chainsActive) * price limit - s.granted - s.excess * price limit +
        (s.run es).granted + (s.run es).excess * price limit := by exact_mod_cast hq
  rw [← price]
  linarith

/-- At a rate of three hundred million a chain is started while another one waits, for three
nanoseconds and a bit; then the rate is lowered, and a chain ends. -/
def burst : List Event :=
  [.spawn, .chain 0 .read, .chain 0 (.wait 0), .chain 0 .broadcast, .chain 0 .returned,
    .chain 0 .read, .chain 0 (.wait 0), .spawn, .chain 1 .read, .chain 1 (.wait 2), .tick 3,
    .chain 1 .timer, .chain 1 .broadcast, .chain 1 .returned, .chain 0 .timer,
    .chain 0 .broadcast, .chain 0 .returned, .chain 0 .read, .chain 0 (.wait 0),
    .setTPS 200000000, .wake, .chain 0 .restart, .chain 0 .read, .chain 0 (.wait 0),
    .chain 1 .read, .chain 1 (.wait 0), .tick 10, .chain 0 .timer, .chain 0 .broadcast,
    .chain 0 .exit, .chain 1 .timer, .chain 1 .broadcast]

theorem rate_is_bounded_burst :
    Along State.step (State.Within 300000000) (State.start 300000000) burst ∧
      ((State.start 300000000).run burst).sent = 5 ∧
      ((State.start 300000000).run burst).excess = 3 ∧
      (5 - 3 : ℤ) * (10 ^ 9 - 300000001) ≤ ((State.start 300000000).run burst).granted := by
  have hburst : Along State.step (State.Within 300000000) (State.start 300000000) burst ∧
      ((State.start 300000000).run burst).chains.length ≤ 9 * 10 ^ 9 ∧
      ((State.start 300000000).run burst).sent = 5 ∧
      ((State.start 300000000).run burst).excess = 3 := by
    decide +kernel
  obtain ⟨halong, hlen, hsent, hexcess⟩ := hburst
  have htps : (State.start 300000000).tps ≤ 300000000 := le_rfl
  have h := rate_is_bounded (.start 300000000) (by norm_num) htps halong hlen
  rw [hsent, hexcess] at h
  exact ⟨halong, hsent, hexcess, by simpa [State.start] using h⟩

end Bounded

/-! ## No slower -/

section Reached

/-- When chain `c` broadcast last, or began its first wait: after `hops` rounds of an
interval and a broadcast. -/
def Round (tps interval latency now : ℤ) (c : Chain) : Prop :=
  match c.pc with
  | .awake _ => now ≤ c.born + c.hops * (interval + latency)
  | .ready _ rate => rate = tps ∧ now ≤ c.born + c.hops * (interval + latency)
  | .sleep _ begun d =>
    begun ≤ c.born + c.hops * (interval + latency) ∧ d ≤ interval ∧ now ≤ begun + d
  | .due => now ≤ c.born + c.hops * (interval + latency) + interval
  | .sending begun =>
    begun + latency ≤ c.born + c.hops * (interval + latency) ∧ now ≤ begun + latency
  | .paused _ | .ended => False

variable {tps interval latency now : ℤ} {c : Chain} {s : State}

theorem Round.le (hinterval : 0 ≤ interval) (h : Round tps interval latency now c) :
    now - c.born - interval ≤ c.hops * (interval + latency) := by
  obtain ⟨pc, woken, stale, born, hops⟩ := c
  cases pc <;> simp only [Round] at h ⊢ <;> omega

theorem Round.tick (h : Round tps interval latency now c) {d : ℕ}
    (hin : State.InTime latency (now + d) c) : Round tps interval latency (now + d) c := by
  obtain ⟨pc, woken, stale, born, hops⟩ := c
  cases pc with
  | awake first | ready first rate | due => exact hin.elim
  | sleep first begun d => exact ⟨h.1, h.2.1, hin⟩
  | sending begun => exact ⟨h.1, hin⟩
  | paused first | ended => exact h.elim

theorem Round.pc_ne_ended (h : Round tps interval latency now c) : c.pc ≠ .ended := by
  intro hend
  rw [Round, hend] at h
  exact h

section Act

variable (hinterval : 0 ≤ interval) (htps : 0 < s.tps)
  (hle : chainInterval s.tps s.chainsActive ≤ interval)

include hinterval hle

/-- A chain begins to wait in time, and for no longer than an interval. -/
theorem round_wait {first : Bool} {rate jitter : ℤ}
    (hjitter : jitter ≤ chainInterval s.tps s.chainsActive) (hpc : c.pc = .ready first rate)
    (h : Round s.tps interval latency s.now c) :
    Round s.tps interval latency s.now { c with pc := s.wait first rate jitter } := by
  simp only [Round, hpc] at h
  obtain ⟨rfl, h⟩ := h
  have hd : (if first then jitter else chainInterval s.tps s.chainsActive) ≤ interval := by
    split_ifs
    · exact hjitter.trans hle
    · exact hle
  simp only [State.wait]
  generalize (if first then jitter else chainInterval s.tps s.chainsActive) = d at hd ⊢
  split_ifs with hnone
  · simp only [Round]
    omega
  · simp only [Round]
    omega

include htps

/-- What a chain does is done in time. -/
theorem round_act (hlatency : 0 ≤ latency) {i : ℕ} {a : Action}
    (ha : s.Steady latency (.chain i a)) (hwoken : c.woken = false)
    (h : Round s.tps interval latency s.now c) :
    Round s.tps interval latency s.now (s.act c a) := by
  cases a with
  | read =>
    simp only [State.act]
    split
    case h_1 first hpc =>
      simp only [Round, hpc] at h
      simp only [State.waitActive, if_neg (not_le.2 htps)]
      exact ⟨rfl, h⟩
    case h_2 => exact h
  | wait jitter =>
    simp only [State.act]
    split
    case h_1 first rate hpc => exact round_wait hinterval hle ha hpc h
    case h_2 => exact h
  | timer =>
    simp only [State.act]
    split
    case h_1 first begun d hpc =>
      split_ifs with hover
      · simp only [Round, hpc] at h ⊢
        omega
      · exact h
    case h_2 => exact h
  | restart =>
    simp only [State.act, hwoken, Bool.false_eq_true, if_false]
    split <;> exact h
  | broadcast =>
    simp only [State.act]
    split
    case h_1 hpc =>
      simp only [Round, hpc] at h ⊢
      push_cast
      rw [add_mul]
      omega
    case h_2 => exact h
  | returned =>
    simp only [State.act]
    split
    case h_1 begun hpc =>
      simp only [Round, hpc] at h ⊢
      omega
    case h_2 => exact h
  | skip => exact ha.elim
  | exit => exact ha.elim

end Act

/-- The rounds of a run at the rate `tps`. -/
structure Rounds (tps interval latency : ℤ) (s : State) : Prop where
  rate : s.tps = tps
  active : s.chainsActive = s.chains.length
  sent : s.sent = (s.chains.map Chain.hops).sum
  woken : ∀ c ∈ s.chains, c.woken = false
  round : ∀ c ∈ s.chains, Round tps interval latency s.now c

theorem Rounds.start : Rounds tps interval latency (State.start tps) :=
  ⟨rfl, rfl, rfl, fun _ hc => absurd hc List.not_mem_nil, fun _ hc => absurd hc List.not_mem_nil⟩

/-- As long as there are at most `n` chains, each keeps to the interval of `n` chains. -/
theorem Rounds.step {n : ℕ} (hn : n ≤ 9 * 10 ^ 9) (htps : 1 ≤ tps) (htps' : tps ≤ 2 ^ 53)
    (hlatency : 0 ≤ latency) (h : Rounds tps (chainInterval tps n) latency s) {e : Event}
    (he : s.Steady latency e) (hlen : (s.step e).chains.length ≤ n) :
    Rounds tps (chainInterval tps n) latency (s.step e) := by
  cases e with
  | tick d => exact ⟨h.rate, h.active, h.sent, h.woken, fun c hc => (h.round c hc).tick (he c hc)⟩
  | spawn =>
    refine ⟨h.rate, ?_, ?_, ?_, ?_⟩
    · simp [State.step, h.active]
    · simp [State.step, h.sent, Function.comp_def]
    · simp only [State.step, List.forall_mem_append, List.forall_mem_map, List.forall_mem_singleton]
      exact ⟨h.woken, trivial⟩
    · simp only [State.step, List.forall_mem_append, List.forall_mem_map, List.forall_mem_singleton]
      exact ⟨h.round, by simp [Round]⟩
  | setTPS tps => exact he.elim
  | wake => exact he.elim
  | chain i a =>
    cases hi : s.chains[i]? with
    | none =>
      simp only [State.step, hi]
      exact h
    | some c =>
      have hc := List.mem_of_getElem? hi
      obtain ⟨hlt, -⟩ := List.getElem?_eq_some_iff.1 hi
      have hle := (length_le_step s (.chain i a)).trans hlen
      have hinterval := chainInterval_nonneg (n := n) (by omega) (by omega) htps htps'
      have hmono : chainInterval s.tps s.chainsActive ≤ chainInterval tps n := by
        rw [h.rate, h.active]
        exact chainInterval_mono (by omega) (by omega) htps htps' (by omega) (by omega)
      have hround : Round tps (chainInterval tps n) latency s.now (s.act c a) := by
        have hround := h.round c hc
        rw [← h.rate] at hround hinterval hmono ⊢
        exact round_act hinterval (by rw [h.rate]; omega) hmono hlatency he (h.woken c hc) hround
      have heff := act_effect s c a
      simp only [State.step, hi]
      refine ⟨h.rate, ?_, ?_, forall_set h.woken (heff.woken (h.woken c hc)),
        forall_set h.round hround⟩
      · rw [if_neg (fun hend => hround.pc_ne_ended hend.2), List.length_set]
        exact h.active
      · have hsum := sum_map_set Chain.hops hi (b := s.act c a)
        have hhops := heff.hops_le
        rw [h.sent]
        dsimp only
        omega

/-- **The rate is reached.** While the rate is left at `tps`, no chain ends and each builds
its transactions, each of `n` chains broadcasts once in an interval and the time a broadcast
takes, but for its first wait, from its start on. -/
theorem rate_is_reached {n : ℕ} (hn : 1 ≤ n) (hn' : n ≤ 9 * 10 ^ 9) (htps : 1 ≤ tps)
    (htps' : tps ≤ 2 ^ 53) (hlatency : 0 ≤ latency) {es : List Event}
    (hes : Along State.step (State.Steady latency) (State.start tps) es)
    (hlen : ((State.start tps).run es).chains.length = n) :
    let s := (State.start tps).run es
    (∀ c ∈ s.chains,
      s.now - c.born - chainInterval tps n ≤ c.hops * (chainInterval tps n + latency)) ∧
    (s.chains.map fun c => s.now - c.born - chainInterval tps n).sum ≤
      s.sent * (chainInterval tps n + latency) := by
  have hinterval := chainInterval_nonneg (n := n) (by omega) (by omega) htps htps'
  have hinv : Rounds tps (chainInterval tps n) latency ((State.start tps).run es) :=
    Along.inv_of_later (F := fun s => s.chains.length ≤ n)
      (fun s e hle => (length_le_step s e).trans hle)
      (fun s e h he hle => h.step hn' htps htps' hlatency he hle) hes .start hlen.le
  intro s
  have hround : ∀ c ∈ s.chains,
      s.now - c.born - chainInterval tps n ≤ c.hops * (chainInterval tps n + latency) :=
    fun c hc => (hinv.round c hc).le hinterval
  refine ⟨hround, (List.sum_le_sum hround).trans_eq ?_⟩
  rw [List.sum_map_mul_right, hinv.sent, Nat.cast_list_sum, List.map_map]
  rfl

/-- Two chains at ten a second, the second one started while the first one broadcasts: an
interval is a fifth of a second. -/
def steady : List Event :=
  [.spawn, .chain 0 .read, .chain 0 (.wait 0), .chain 0 .broadcast, .tick 30000000, .spawn,
    .chain 1 .read, .chain 1 (.wait 100000000), .tick 20000000, .chain 0 .returned,
    .chain 0 .read, .chain 0 (.wait 0), .tick 80000000, .chain 1 .timer, .chain 1 .broadcast,
    .tick 10000000, .chain 1 .returned, .chain 1 .read, .chain 1 (.wait 0), .tick 110000000,
    .chain 0 .timer, .chain 0 .broadcast, .tick 20000000]

theorem rate_is_reached_steady :
    Along State.step (State.Steady 50000000) (State.start 10) steady ∧
      ((State.start 10).run steady).now = 270000000 ∧
      ((State.start 10).run steady).chains.map Chain.born = [0, 30000000] ∧
      (270000000 - chainInterval 10 2) + (240000000 - chainInterval 10 2) ≤
        ((State.start 10).run steady).sent * (chainInterval 10 2 + 50000000) := by
  have hsteady : Along State.step (State.Steady 50000000) (State.start 10) steady ∧
      ((State.start 10).run steady).chains.length = 2 ∧
      ((State.start 10).run steady).now = 270000000 ∧
      ((State.start 10).run steady).chains.map Chain.born = [0, 30000000] := by
    decide +kernel
  obtain ⟨halong, hlen, hnow, hborn⟩ := hsteady
  have h := (rate_is_reached (n := 2) (by omega) (by omega) (by norm_num) (by norm_num)
    (by norm_num) halong hlen).2
  have hsum : (((State.start 10).run steady).chains.map fun c =>
      ((State.start 10).run steady).now - c.born - chainInterval 10 2).sum =
      (270000000 - chainInterval 10 2) + (240000000 - chainInterval 10 2) := by
    have hmap := congrArg (List.map fun b => (270000000 : ℤ) - b - chainInterval 10 2) hborn
    rw [List.map_map] at hmap
    rw [hnow]
    refine (congrArg List.sum hmap).trans ?_
    simp
  exact ⟨halong, hnow, hborn, hsum ▸ h⟩

end Reached

end TxGen.Pace
