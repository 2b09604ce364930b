import TxGen.Spec.Backoff

/-!
# The delays against a capped doubling

`exponential` is `min (base * 2 ^ (attempt - 1)) limit` but for one attempt: it compares
with half the limit, rounded down, so it goes to an odd limit one doubling early, from
the delay just below it (`exponential_eq`). It never overflows. The jitter is added to a
delay that may be as large as a duration can be, and that sum may wrap
(`reconnect_eq`).
-/

namespace TxGen.Backoff

variable {int : ℤ → Except Fault ℤ} {rand : Rand} {base limit attempt : ℤ}

/-- `int` leaves results alone that are not negative and fit. -/
def Fits (int : ℤ → Except Fault ℤ) : Prop := ∀ x, 0 ≤ x → x ≤ maxInt64 → int x = .ok x

theorem fits_wrap : Fits wrap := by
  intro x h0 h1
  rw [maxInt64] at h1
  rw [wrap, i64, Int.bmod_eq_of_le (by omega) (by omega)]

theorem fits_checked : Fits checked := by
  intro x h0 h1
  rw [checked, if_pos ⟨by omega, h1⟩]

/-! ## The doubling -/

/-- What `exponential` returns after `n` doublings: the limit one above the doubled
delay counts as reached. -/
def capped (base limit : ℤ) (n : ℕ) : ℤ :=
  if n ≠ 0 ∧ limit = base * 2 ^ n + 1 then limit else min (base * 2 ^ n) limit

theorem le_mul_two_pow (h : 0 ≤ base) (n : ℕ) : base ≤ base * 2 ^ n :=
  le_mul_of_one_le_right h (one_le_pow₀ (by decide))

theorem capped_of_le {n : ℕ} (h : limit ≤ base * 2 ^ n) : capped base limit n = limit := by
  rw [capped, if_neg (by omega), min_eq_right h]

theorem doubling_eq (hint : Fits int) (hbase : 0 < base) (hlt : base < limit)
    (hlimit : limit ≤ maxInt64) (n : ℕ) : doubling int limit n base = .ok (capped base limit n) := by
  induction n generalizing base with
  | zero => simp [doubling, capped, hlt.le]
  | succ n ih =>
    rw [doubling, Int.tdiv_eq_ediv_of_nonneg (by omega)]
    split_ifs with hhalf
    · -- the next doubling is at least the limit, or one below an odd one
      have hnext : limit - 1 ≤ base * 2 ^ (n + 1) := by
        have := le_mul_two_pow (show 0 ≤ base * 2 by omega) n
        rw [pow_succ', ← mul_assoc]
        omega
      rw [capped]
      split_ifs with hodd
      · rfl
      · rw [min_eq_right (by omega)]
    · have hfit : 2 * base + 2 ≤ limit := by omega
      rw [hint (base * 2) (by omega) (by omega)]
      change doubling int limit n (base * 2) = _
      rw [ih (by omega) (by omega), capped, capped, pow_succ', ← mul_assoc]
      cases n with
      | zero => rw [if_neg (by simp), if_neg (by omega)]
      | succ n => simp

/-- **What `exponential` computes**, and that none of its operations overflows: `int` may
be `wrap` or `checked`. -/
theorem exponential_eq (hint : Fits int) (hbase : 0 < base) (hlimit : limit ≤ maxInt64)
    (hattempt : 1 ≤ attempt) :
    exponential int base limit attempt = .ok (capped base limit (attempt - 1).toNat) := by
  have hone : ¬attempt < 1 := by omega
  simp only [exponential, if_neg hone]
  split_ifs with hstop
  · have hle : limit ≤ base := hstop.resolve_left (by omega)
    rw [capped_of_le (hle.trans (le_mul_two_pow hbase.le _))]
  · exact doubling_eq hint hbase (by omega) hlimit _

theorem capped_eq_min_iff (n : ℕ) :
    capped base limit n = min (base * 2 ^ n) limit ↔ n = 0 ∨ limit ≠ base * 2 ^ n + 1 := by
  rw [capped]
  split_ifs with hodd
  · rw [min_eq_left (by omega)]
    omega
  · exact iff_of_true rfl (by tauto)

theorem capped_pos (hbase : 0 < base) (hlimit : 0 < limit) (n : ℕ) : 0 < capped base limit n := by
  rw [capped]
  split_ifs
  · exact hlimit
  · exact lt_min (hbase.trans_le (le_mul_two_pow hbase.le n)) hlimit

theorem capped_le (base limit : ℤ) (n : ℕ) : capped base limit n ≤ limit := by
  rw [capped]
  split_ifs
  · exact le_rfl
  · exact min_le_right _ _

/-! ## The jitter -/

/-- The jitter of up to `m` that a random source gives. -/
def Rand.upTo (rand : Rand) (m : ℤ) : ℤ := if m ≤ 0 then 0 else rand.draw (m + 1)

theorem Rand.upTo_range (rand : Rand) {m : ℤ} (hm : 0 ≤ m) :
    0 ≤ rand.upTo m ∧ rand.upTo m ≤ m := by
  unfold upTo
  split_ifs with h0
  · omega
  · have := rand.range (m + 1) (by omega)
    omega

theorem jitter_eq (hint : Fits int) {m : ℤ} (hm : m < maxInt64) :
    jitter int rand m = .ok (rand.upTo m) := by
  unfold jitter Rand.upTo
  split_ifs with h0 h1
  · rfl
  · omega
  · change int (m + 1) >>= rand.int64N = _
    rw [hint (m + 1) (by omega) (by omega)]
    exact if_neg (by omega)

/-- A jitter of up to its half is added to a delay; only the sum may fail to fit. -/
theorem jittered_eq (hint : Fits int) {delay : ℤ} (hpos : 0 < delay) (hle : delay ≤ maxInt64) :
    (do let more ← jitter int rand (delay.tdiv 2); int (delay + more)) =
      int (delay + rand.upTo (delay / 2)) := by
  rw [Int.tdiv_eq_ediv_of_nonneg hpos.le, jitter_eq hint (by omega)]
  rfl

theorem reconnect_eq (hint : Fits int) (hbase : 0 < base) (hpos : 0 < limit)
    (hlimit : limit ≤ maxInt64) (hattempt : 1 ≤ attempt) :
    reconnect int rand base limit attempt =
      int (capped base limit (attempt - 1).toNat +
        rand.upTo (capped base limit (attempt - 1).toNat / 2)) := by
  have hdelay := capped_pos hbase hpos (attempt - 1).toNat
  have hle := capped_le base limit (attempt - 1).toNat
  rw [← jittered_eq hint hdelay (hle.trans hlimit), reconnect, if_neg (by omega),
    exponential_eq hint hbase hlimit hattempt]
  exact if_neg (by omega)

/-- **Retries.** The delay before retry number `attempt` is the doubled base, at most the
cap, and a jitter of at most its half. Nothing overflows. -/
theorem retry_eq (hint : Fits int) (hattempt : 1 ≤ attempt) :
    let d := min (retryBase * 2 ^ (attempt - 1).toNat) retryCap
    retry int rand attempt = .ok (d + rand.upTo (d / 2)) := by
  -- the cap is even, so it is not one above a doubled base
  have heven : capped retryBase retryCap (attempt - 1).toNat =
      min (retryBase * 2 ^ (attempt - 1).toNat) retryCap := by
    rw [capped_eq_min_iff]
    right
    rw [retryBase, retryCap]
    omega
  have hpos := capped_pos (show 0 < retryBase by decide) (show 0 < retryCap by decide)
    (attempt - 1).toNat
  have hle := capped_le retryBase retryCap (attempt - 1).toNat
  have hcap : retryCap ≤ 2 ^ 62 := by decide
  have hmax : 2 ^ 62 + 2 ^ 62 / 2 ≤ maxInt64 := by decide
  have hmore := rand.upTo_range (m := capped retryBase retryCap (attempt - 1).toNat / 2) (by omega)
  rw [retry, exponential_eq hint (by decide) (by decide) hattempt]
  change (do let more ← jitter int rand (Int.tdiv (capped retryBase retryCap _) 2); int _) = _
  rw [jittered_eq hint hpos (by omega), ← heven]
  exact hint _ (by omega) (by omega)

theorem checked_ok_iff {x : ℤ} (hx : 0 ≤ x) : (∃ v, checked x = .ok v) ↔ x ≤ maxInt64 := by
  constructor
  · rintro ⟨v, hv⟩
    by_contra hbig
    rw [checked, if_neg (by omega)] at hv
    cases hv
  · intro hfit
    exact ⟨x, fits_checked x hx hfit⟩

/-! ## Reconnecting -/

/-- The delay before a reconnect is a capped doubling with a jitter of at most its half,
computed without overflow. -/
def Exact (rand : Rand) (minDelay maxDelay attempt : ℤ) : Prop :=
  let d := min (minDelay * 2 ^ (attempt - 1).toNat) maxDelay
  exponential wrap minDelay maxDelay attempt = .ok d ∧
    (∃ v, reconnect wrap rand minDelay maxDelay attempt = .ok v ∧ d ≤ v ∧ v ≤ d + d / 2) ∧
    (∃ v, exponential checked minDelay maxDelay attempt = .ok v) ∧
    ∃ v, reconnect checked rand minDelay maxDelay attempt = .ok v

/-- The random source that gives the largest value. -/
def Rand.largest : Rand := ⟨fun n => n - 1, fun n hn => ⟨by omega, by omega⟩⟩

theorem Rand.upTo_largest {m : ℤ} (hm : 0 ≤ m) : Rand.largest.upTo m = m := by
  unfold upTo largest
  split_ifs with h0
  · omega
  · exact Int.add_sub_cancel m 1

/-- **When reconnect delays are a capped doubling.** For every jitter it is so exactly
when the limit is not one above the doubled delay, the first attempt apart, and the
delay leaves room for its half. -/
theorem reconnect_exact_iff {minDelay maxDelay attempt : ℤ} (hmin : 0 < minDelay)
    (hmax : 0 < maxDelay) (hfit : maxDelay ≤ maxInt64) (hattempt : 1 ≤ attempt) :
    (∀ rand, Exact rand minDelay maxDelay attempt) ↔
      (attempt = 1 ∨ maxDelay ≠ minDelay * 2 ^ (attempt - 1).toNat + 1) ∧
        let d := min (minDelay * 2 ^ (attempt - 1).toNat) maxDelay
        d + d / 2 ≤ maxInt64 := by
  have hturns : attempt = 1 ↔ (attempt - 1).toNat = 0 := by omega
  have hpos := capped_pos hmin hmax (attempt - 1).toNat
  simp only [Exact, exponential_eq fits_wrap hmin hfit hattempt,
    exponential_eq fits_checked hmin hfit hattempt, reconnect_eq fits_wrap hmin hmax hfit hattempt,
    reconnect_eq fits_checked hmin hmax hfit hattempt, Except.ok.injEq, exists_eq', true_and, hturns,
    ← capped_eq_min_iff]
  constructor
  · intro h
    -- the largest jitter leaves the least room
    obtain ⟨hd, -, hsum⟩ := h Rand.largest
    rw [Rand.upTo_largest (by omega), checked_ok_iff (by omega), hd] at hsum
    exact ⟨hd, hsum⟩
  · rintro ⟨hd, hroom⟩ rand
    rw [← hd] at hroom ⊢
    have hmore := rand.upTo_range (m := capped minDelay maxDelay (attempt - 1).toNat / 2) (by omega)
    refine ⟨rfl, ⟨_, fits_wrap _ (by omega) (by omega), by omega, by omega⟩, ?_⟩
    exact (checked_ok_iff (by omega)).2 (by omega)

/-- From one second, with a limit of thirty, the fifth delay is sixteen seconds and at
most eight more. -/
theorem reconnect_exact_default : Exact Rand.largest (10 ^ 9) (30 * 10 ^ 9) 5 :=
  (reconnect_exact_iff (by decide) (by decide) (by decide) (by decide)).2
    ⟨Or.inr (by decide), by decide⟩ Rand.largest

/-- The second delay from 1 with the limit 3 is the limit, not 2; and at the largest
limit the jitter makes the delay negative. -/
theorem reconnect_not_exact :
    (exponential wrap 1 3 2 = .ok 3 ∧ ¬Exact Rand.largest 1 3 2) ∧
    reconnect wrap Rand.largest maxInt64 maxInt64 1 = .ok (-2 ^ 62 - 2) ∧
      ¬Exact Rand.largest maxInt64 maxInt64 1 := by
  have hthree : exponential wrap 1 3 2 = .ok 3 := by decide +kernel
  have hwraps : reconnect wrap Rand.largest maxInt64 maxInt64 1 = .ok (-2 ^ 62 - 2) := by
    decide +kernel
  refine ⟨⟨hthree, fun h => ?_⟩, hwraps, fun h => ?_⟩
  · have htwo := h.1
    rw [hthree] at htwo
    revert htwo
    decide
  · obtain ⟨-, ⟨v, hv, hlow, -⟩, -⟩ := h
    rw [hwraps, Except.ok.injEq] at hv
    subst hv
    revert hlow
    decide

end TxGen.Backoff
