import Mathlib.Logic.Basic

/-!
# While loops

`Exits guard body s s'` says that the loop with this guard and body, started in `s`, ends
in `s'`. A loop that does not end is related to nothing.
-/

namespace Lib

variable {σ : Type*} {guard : σ → Prop} {body : σ → σ} {s s' : σ}

/-- The loop from `s` ends in `s'`. -/
inductive Exits (guard : σ → Prop) (body : σ → σ) : σ → σ → Prop
  | stop {s : σ} (h : ¬guard s) : Exits guard body s s
  | turn {s s' : σ} (h : guard s) (next : Exits guard body (body s) s') : Exits guard body s s'

theorem Exits.not_guard (h : Exits guard body s s') : ¬guard s' := by
  induction h with
  | stop h => exact h
  | turn _ _ ih => exact ih

/-- **The rule for loops.** What holds before and is kept by every turn holds at the end. -/
theorem Exits.inv {I : σ → Prop} (h : Exits guard body s s')
    (hbody : ∀ s, guard s → I s → I (body s)) (h0 : I s) : I s' := by
  induction h with
  | stop => exact h0
  | turn hg _ ih => exact ih (hbody _ hg h0)

end Lib
