import TxGen.Lib.Loop
import TxGen.Proof.Funding

/-!
# The search for the largest fanout

`maxTaggedDropFanoutOutputs` doubles a bound until a fanout of that size does not fit,
and then bisects. Both loops end, and what they find is the largest fanout that fits
(`maxTaggedDropFanoutOutputs_greatest`).
-/

namespace TxGen.Funding

open Lib

variable {maxBytes : ℕ}

/-- The guard of the first loop; its body doubles `hi`. -/
def Doubles (maxBytes hi : ℕ) : Prop :=
  estimateTaggedDropFanoutBytes hi ≤ maxBytes ∧ 2 * hi < maxSafeInteger

/-- The body of the second loop, which runs while `lo < hi`. -/
def narrow (maxBytes : ℕ) (r : ℕ × ℕ) : ℕ × ℕ :=
  let mid := divCeil (r.1 + r.2) 2
  if estimateTaggedDropFanoutBytes mid ≤ maxBytes then (mid, r.2) else (r.1, mid - 1)

theorem exits_doubleHi (maxBytes : ℕ) (hi : ℕ+) :
    Exits (Doubles maxBytes) (· * 2) (hi : ℕ) (doubleHi maxBytes hi) := by
  fun_induction doubleHi maxBytes hi with
  | case1 hi hfit ih => exact .turn hfit ih
  | case2 hi hstop => exact .stop hstop

/-- The midpoint is rounded up, so it is above `lo`. -/
theorem lt_mid {lo hi : ℕ} (h : lo < hi) : lo < divCeil (lo + hi) 2 ∧ divCeil (lo + hi) 2 ≤ hi := by
  unfold divCeil
  omega

theorem exits_bisect (maxBytes : ℕ) {lo hi : ℕ} (h : lo ≤ hi) :
    Exits (fun r : ℕ × ℕ => r.1 < r.2) (narrow maxBytes) (lo, hi)
      (bisect maxBytes lo hi, bisect maxBytes lo hi) := by
  fun_induction bisect maxBytes lo hi with
  | case1 lo hi hlt mid hfit ih =>
    refine .turn hlt ?_
    rw [narrow, if_pos hfit]
    exact ih (lt_mid hlt).2
  | case2 lo hi hlt mid hbig ih =>
    refine .turn hlt ?_
    rw [narrow, if_neg hbig]
    exact ih (Nat.le_sub_one_of_lt (lt_mid hlt).1)
  | case3 lo hi hend =>
    obtain rfl : lo = hi := by omega
    exact .stop hend

/-- The first loop ends at a size that does not fit: it stops before the safe integers
are used up only because of the size. -/
theorem not_fits_doubleHi (hsafe : maxBytes ≤ maxSafeInteger) (hi : ℕ+) :
    maxBytes < estimateTaggedDropFanoutBytes (doubleHi maxBytes hi) := by
  have hstop := (exits_doubleHi maxBytes hi).not_guard
  by_contra hfit
  have hhuge : maxSafeInteger ≤ 2 * (doubleHi maxBytes hi : ℕ) :=
    not_lt.1 fun hlt => hstop ⟨not_lt.1 hfit, hlt⟩
  rw [estimateTaggedDropFanoutBytes_eq] at hfit
  omega

/-- What the second loop keeps: `lo` fits, and what is above `hi` does not. -/
def Brackets (maxBytes : ℕ) (r : ℕ × ℕ) : Prop :=
  r.1 ≤ r.2 ∧ estimateTaggedDropFanoutBytes r.1 ≤ maxBytes ∧
    maxBytes < estimateTaggedDropFanoutBytes (r.2 + 1)

theorem Brackets.narrow {r : ℕ × ℕ} (h : Brackets maxBytes r) (hlt : r.1 < r.2) :
    Brackets maxBytes (narrow maxBytes r) := by
  obtain ⟨-, hlo, hhi⟩ := h
  obtain ⟨h1, h2⟩ := lt_mid hlt
  unfold Funding.narrow
  dsimp only
  split_ifs with hfit
  · exact ⟨h2, hfit, hhi⟩
  · refine ⟨Nat.le_sub_one_of_lt h1, hlo, ?_⟩
    rw [Nat.sub_add_cancel (by omega)]
    exact not_le.1 hfit

/-- **The search finds the largest fanout that fits.** Both loops end, and the number
they end with is the greatest whose fanout takes at most `maxBytes`. -/
theorem maxTaggedDropFanoutOutputs_greatest
    (hone : estimateTaggedDropFanoutBytes 1 ≤ maxBytes) (hsafe : maxBytes ≤ maxSafeInteger) :
    (∃ hi, Exits (Doubles maxBytes) (· * 2) 1 hi ∧
      Exits (fun r : ℕ × ℕ => r.1 < r.2) (narrow maxBytes) (1, hi)
        (maxTaggedDropFanoutOutputs maxBytes, maxTaggedDropFanoutOutputs maxBytes)) ∧
    IsGreatest {n | estimateTaggedDropFanoutBytes n ≤ maxBytes}
      (maxTaggedDropFanoutOutputs maxBytes) := by
  have hbig := not_fits_doubleHi hsafe 1
  have hpos := (doubleHi maxBytes 1).pos
  have hloop := exits_bisect maxBytes (show 1 ≤ (doubleHi maxBytes 1 : ℕ) from hpos)
  refine ⟨⟨_, exits_doubleHi maxBytes 1, hloop⟩, ?_⟩
  have hstart : Brackets maxBytes (1, (doubleHi maxBytes 1 : ℕ)) :=
    ⟨hpos, hone, hbig.trans_le (estimateTaggedDropFanoutBytes_mono (Nat.le_succ _))⟩
  obtain ⟨-, hfit, hnext⟩ := hloop.inv (fun r hlt h => h.narrow hlt) hstart
  refine ⟨hfit, fun n hn => ?_⟩
  -- a greater number is at least the first that does not fit
  by_contra hlt
  have hmono := estimateTaggedDropFanoutBytes_mono (not_le.1 hlt)
  exact absurd (hnext.trans_le (hmono.trans hn)) (Nat.lt_irrefl _)

/-- The largest fanout in 100 bytes has two outputs. -/
theorem maxTaggedDropFanoutOutputs_hundred : maxTaggedDropFanoutOutputs 100 = 2 := by
  obtain ⟨-, hfit, hmax⟩ := maxTaggedDropFanoutOutputs_greatest
    (show estimateTaggedDropFanoutBytes 1 ≤ 100 by decide) (by decide)
  have h2 : 2 ≤ maxTaggedDropFanoutOutputs 100 := hmax (by decide)
  have h3 : ¬3 ≤ maxTaggedDropFanoutOutputs 100 := by
    intro h
    have hmono := (estimateTaggedDropFanoutBytes_mono h).trans hfit
    revert hmono
    decide
  omega

end TxGen.Funding
