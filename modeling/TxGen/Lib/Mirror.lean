import TxGen.Lib.Machine

/-!
# A value and a copy of it

A writer changes a shared value, keeps what it has become, and writes that to a copy in
a step of its own. Any number of writers do so in any order. A state is settled when no
writer stands between its two steps.

Every write to the value is followed by one to the copy, but not in the same order, so a
writer may copy what is no longer the value. In a settled state the copy is the value
exactly when the last step that wrote the copy wrote what the value was then
(`Mirrors.copy_eq_iff`): no later write can have been left out.
-/

namespace Lib

variable {σ ε α : Type*} {step : σ → ε → σ} {R settled : σ → Prop} {value copy : σ → α}
  {copied : σ → ε → Option α}

/-- In the states with `R` the machine keeps a value and a copy of it. `copied` is what a
step writes to the copy, if anything. Any other step that leads to a settled state starts
from one and changes neither. -/
structure Mirrors (step : σ → ε → σ) (R settled : σ → Prop) (value copy : σ → α)
    (copied : σ → ε → Option α) : Prop where
  write : ∀ s e v, R s → copied s e = some v → copy (step s e) = v ∧ value (step s e) = value s
  stay : ∀ s e, R s → copied s e = none → settled (step s e) →
    settled s ∧ value (step s e) = value s ∧ copy (step s e) = copy s

/-- The last step that writes the copy, with the state it is taken in. -/
def lastCopy (step : σ → ε → σ) (copied : σ → ε → Option α) (s : σ) (es : List ε) :
    Option (σ × ε) :=
  lastOf step (fun s e => (copied s e).map fun _ => (s, e)) s es

/-- **When the copy agrees.** -/
theorem Mirrors.copy_eq_iff (h : Mirrors step R settled value copy copied) (s₀ : σ)
    (hR : ∀ es, R (run step s₀ es)) (h0 : settled s₀ → copy s₀ = value s₀) (es : List ε)
    (hs : settled (run step s₀ es)) :
    copy (run step s₀ es) = value (run step s₀ es) ↔
      ∀ s e, lastCopy step copied s₀ es = some (s, e) → ∀ v ∈ copied s e, v = value s := by
  refine run_history
    (I := fun es s₁ => settled s₁ → (copy s₁ = value s₁ ↔
      ∀ s e, lastCopy step copied s₀ es = some (s, e) → ∀ v ∈ copied s e, v = value s))
    ?_ ?_ es hs
  · intro hs
    refine ⟨fun _ s e hlast => ?_, fun _ => h0 hs⟩
    cases hlast
  · intro es e ih hs
    cases hc : copied (run step s₀ es) e with
    | none =>
      -- the step writes nothing, and the condition is that before it
      obtain ⟨hs', hvalue, hcopy⟩ := h.stay _ e (hR es) hc hs
      have hlast : lastCopy step copied s₀ (es ++ [e]) = lastCopy step copied s₀ es :=
        lastOf_concat_none (by rw [hc]; rfl)
      rw [hvalue, hcopy, hlast]
      exact ih hs'
    | some v =>
      obtain ⟨hcopy, hvalue⟩ := h.write _ e v (hR es) hc
      have hlast : lastCopy step copied s₀ (es ++ [e]) = some (run step s₀ es, e) :=
        lastOf_concat_some (by rw [hc]; rfl)
      rw [hvalue, hcopy, hlast]
      constructor
      · rintro hv s e' ⟨⟩ v' hv'
        rw [hc] at hv'
        cases hv'
        exact hv
      · exact fun hall => hall _ e rfl v hc

end Lib
