import TxGen.Proof.Tx

/-!
# Fanout arithmetic

The number of L1 outputs (`ceilDiv`) is at most the number of chains, also when the
64-bit sum in it overflows, and the sizes of the L2 fanouts
(`l2FanoutSizeForParent`) add up to the number of chains.
-/

namespace TxGen

/-! ## Sums over a split -/

/-- A part `q` for each of `k`, and one more for the first `r`. -/
theorem sum_split (q r k : ℕ) :
    ((List.range k).map fun i => q + if i < r then 1 else 0).sum = k * q + min k r := by
  induction k with
  | zero => simp
  | succ k ih =>
    rw [List.range_succ, List.map_append, List.sum_append, ih]
    have hmul : (k + 1) * q = k * q + q := Nat.succ_mul k q
    simp only [List.map_cons, List.map_nil, List.sum_cons, List.sum_nil]
    split_ifs <;> omega

/-- The size of the fanout of parent `i` of `k`. -/
def splitSize (n k i : ℕ) : ℕ := n / k + if i < n % k then 1 else 0

theorem sum_splitSize {n k : ℕ} (hk : 0 < k) :
    ((List.range k).map (splitSize n k)).sum = n := by
  have hsum := sum_split (n / k) (n % k) k
  have hmod : n % k < k := Nat.mod_lt n hk
  have hdiv : k * (n / k) + n % k = n := Nat.div_add_mod n k
  unfold splitSize
  rw [hsum, Nat.min_eq_right (Nat.le_of_lt hmod), hdiv]

theorem splitSize_pos {n k : ℕ} (hk : 0 < k) (hkn : k ≤ n) (i : ℕ) : 0 < splitSize n k i := by
  have hdiv : 0 < n / k := Nat.div_pos hkn hk
  unfold splitSize
  omega

theorem l2FanoutSizeForParent_eq {n k i : ℕ} (hn : 0 < n) (hi : i < k) :
    l2FanoutSizeForParent n k i = splitSize n k i := by
  unfold l2FanoutSizeForParent splitSize
  rw [if_neg (by omega)]
  have hdiv : (n : ℤ).tdiv k = ((n / k : ℕ) : ℤ) := rfl
  have hmod : (n : ℤ).tmod k = ((n % k : ℕ) : ℤ) := rfl
  rw [hdiv, hmod]
  dsimp only
  split_ifs <;> push_cast <;> omega

/-! ## The number of L1 outputs -/

/-- The 64-bit sum of two positive numbers is their sum, or negative. -/
theorem i64_cases {n : ℤ} (h0 : 0 ≤ n) (h1 : n < 2 ^ 64) : i64 n = n ∨ i64 n < 0 := by
  unfold i64
  rw [Int.bmod_def]
  have hmod : n % ((2 ^ 64 : ℕ) : ℤ) = n := Int.emod_eq_of_lt h0 (by exact_mod_cast h1)
  rw [hmod]
  split_ifs with h
  · exact Or.inl rfl
  · right
    push_cast
    omega

theorem ceilDiv_le {n d : ℤ} (hn : 0 < n) (hd : 0 < d) (hn' : n < 2 ^ 63) (hd' : d < 2 ^ 63) :
    ceilDiv n d ≤ n := by
  unfold ceilDiv
  rw [if_neg (by omega)]
  rcases i64_cases (n := n + d - 1) (by omega) (by omega) with h | h
  · rw [h, Int.tdiv_eq_ediv_of_nonneg (by omega)]
    have hmul : n + d - 1 ≤ n * d := by nlinarith
    calc (n + d - 1) / d ≤ n * d / d := Int.ediv_le_ediv hd hmul
      _ = n := Int.mul_ediv_cancel n (by omega)
  · have hneg : 0 ≤ (-i64 (n + d - 1)).tdiv d := Int.tdiv_nonneg (by omega) (by omega)
    rw [Int.neg_tdiv] at hneg
    omega

end TxGen
