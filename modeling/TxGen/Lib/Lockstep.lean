import Mathlib.Data.List.Forall2
import Mathlib.Data.List.Flatten

/-!
# Two runs in lockstep

Two runs whose events correspond one to one, and what an observer is shown of each
event. When one of the runs never shows less of an event than the other, the observer
sees the same of both only if it sees the same of each event.
-/

namespace Lib

variable {α β γ : Type*} {R : α → β → Prop} {f : α → List γ} {g : β → List γ}
  {l : List α} {l' : List β}

theorem length_flatMap_le (h : List.Forall₂ R l l')
    (hle : ∀ a b, R a b → (f a).length ≤ (g b).length) :
    (l.flatMap f).length ≤ (l'.flatMap g).length := by
  induction h with
  | nil => exact Nat.le_refl _
  | cons hab _ ih =>
    rw [List.flatMap_cons, List.flatMap_cons, List.length_append, List.length_append]
    exact Nat.add_le_add (hle _ _ hab) ih

/-- What is shown of two runs is the same exactly when it is so event by event, which
can be read off each of the events. -/
theorem flatMap_eq_iff {p : α → Prop} {q : β → Prop} (h : List.Forall₂ R l l')
    (hle : (∀ a b, R a b → (f a).length ≤ (g b).length) ∨
      ∀ a b, R a b → (g b).length ≤ (f a).length)
    (hiff : ∀ a b, R a b → (f a = g b ↔ p a ∧ q b)) :
    l.flatMap f = l'.flatMap g ↔ (∀ a ∈ l, p a) ∧ ∀ b ∈ l', q b := by
  induction h with
  | nil => simp
  | @cons a b l l' hab hl ih =>
    have hsplit : f a ++ l.flatMap f = g b ++ l'.flatMap g ↔
        f a = g b ∧ l.flatMap f = l'.flatMap g := by
      refine ⟨fun heq => List.append_inj heq ?_, fun ⟨h₁, h₂⟩ => by rw [h₁, h₂]⟩
      -- the shorter side is shorter in both parts, so the cut is at the same place
      have hlen := congrArg List.length heq
      rw [List.length_append, List.length_append] at hlen
      rcases hle with hle | hle
      · have hhead := hle a b hab
        have htail := length_flatMap_le hl hle
        omega
      · have hhead := hle a b hab
        have htail := length_flatMap_le hl.flip fun b a hba => hle a b hba
        omega
    rw [List.flatMap_cons, List.flatMap_cons, hsplit, hiff a b hab, ih, List.forall_mem_cons,
      List.forall_mem_cons, and_and_and_comm]

end Lib
