import Mathlib.Data.List.Basic

/-!
# Self-delimiting codes

A code is self-delimiting when the value and the rest of the input can be read back
from what it is followed by. Such codes compose, and they are injective.
-/

namespace Lib

variable {α β γ : Type*}

/-- The code `e` can be cut off the front of any list in only one way. -/
def SelfDelimiting (e : α → List β) : Prop :=
  ∀ a b x y, e a ++ x = e b ++ y → a = b ∧ x = y

namespace SelfDelimiting

variable {e : α → List β} {f : γ → List β}

theorem injective (h : SelfDelimiting e) : Function.Injective e := fun a b hab =>
  (h a b [] [] (by rw [hab])).1

/-- A code that a decoder takes off the front. -/
theorem of_decode (d : List β → Option (α × List β)) (h : ∀ a x, d (e a ++ x) = some (a, x)) :
    SelfDelimiting e := by
  intro a b x y hxy
  have hd : some (a, x) = some (b, y) := by rw [← h a x, ← h b y, hxy]
  simpa using hd

/-- Without an end mark, coded elements one after the other make an injective code, if
no code word is empty. -/
theorem flatMap_injective (h : SelfDelimiting e) (hne : ∀ a, e a ≠ []) :
    Function.Injective fun l : List α => l.flatMap e := by
  intro l
  induction l with
  | nil =>
    intro l' hl
    cases l' with
    | nil => rfl
    | cons b l' => exact absurd (List.append_eq_nil_iff.1 hl.symm).1 (hne b)
  | cons a l ih =>
    intro l' hl
    cases l' with
    | nil => exact absurd (List.append_eq_nil_iff.1 hl).1 (hne a)
    | cons b l' =>
      obtain ⟨rfl, hrest⟩ := h a b _ _ hl
      rw [ih hrest]

/-- One code after the other. -/
theorem pair (h : SelfDelimiting e) (h' : SelfDelimiting f) :
    SelfDelimiting fun p : α × γ => e p.1 ++ f p.2 := by
  rintro ⟨a, c⟩ ⟨b, d⟩ x y hxy
  simp only [List.append_assoc] at hxy
  obtain ⟨rfl, hcd⟩ := h a b _ _ hxy
  obtain ⟨rfl, rfl⟩ := h' c d _ _ hcd
  exact ⟨rfl, rfl⟩

theorem comp (h : SelfDelimiting e) {g : γ → α} (hg : Function.Injective g) :
    SelfDelimiting fun c => e (g c) := by
  intro c d x y hxy
  obtain ⟨hcd, rfl⟩ := h _ _ _ _ hxy
  exact ⟨hg hcd, rfl⟩

/-- An injective code whose words do not contain `z`, ended by `z`. -/
theorem terminated (he : Function.Injective e) {z : β} (hz : ∀ a, z ∉ e a) :
    SelfDelimiting fun a => e a ++ [z] := by
  have cut : ∀ l l' x y : List β, z ∉ l → z ∉ l' → l ++ z :: x = l' ++ z :: y →
      l = l' ∧ x = y := by
    intro l
    induction l with
    | nil =>
      intro l' x y _ hl' hxy
      cases l' with
      | nil => simpa using hxy
      | cons c l' => simp_all
    | cons c l ih =>
      intro l' x y hl hl' hxy
      cases l' with
      | nil => simp_all
      | cons d l' =>
        simp only [List.cons_append, List.cons.injEq] at hxy
        obtain ⟨h1, h2⟩ := ih l' x y (fun h => hl (List.mem_cons_of_mem _ h))
          (fun h => hl' (List.mem_cons_of_mem _ h)) hxy.2
        exact ⟨by rw [hxy.1, h1], h2⟩
  intro a b x y hxy
  obtain ⟨hab, rfl⟩ := cut (e a) (e b) x y (hz a) (hz b) (by simpa using hxy)
  exact ⟨he hab, rfl⟩

/-- A list after its length. -/
theorem withLength {n : ℕ → List β} (hn : SelfDelimiting n) :
    SelfDelimiting fun l : List β => n l.length ++ l := by
  intro l l' x y hxy
  simp only [List.append_assoc] at hxy
  obtain ⟨hlen, hl⟩ := hn _ _ _ _ hxy
  exact List.append_inj hl hlen

/-- A list of coded elements, each after the mark `m`, ended by another mark `z`. -/
theorem list (h : SelfDelimiting e) {m z : β} (hmz : m ≠ z) :
    SelfDelimiting fun l : List α => l.flatMap (fun a => m :: e a) ++ [z] := by
  intro l
  induction l with
  | nil =>
    intro l' x y hxy
    cases l' with
    | nil => simpa using hxy
    | cons b l' =>
      simp only [List.flatMap_nil, List.nil_append, List.flatMap_cons, List.cons_append,
        List.cons.injEq] at hxy
      exact absurd hxy.1.symm hmz
  | cons a l ih =>
    intro l' x y hxy
    cases l' with
    | nil =>
      simp only [List.flatMap_nil, List.nil_append, List.flatMap_cons, List.cons_append,
        List.cons.injEq] at hxy
      exact absurd hxy.1 hmz
    | cons b l' =>
      simp only [List.flatMap_cons, List.cons_append, List.append_assoc, List.cons.injEq,
        true_and] at hxy
      obtain ⟨rfl, hl⟩ := h a b _ _ hxy
      obtain ⟨rfl, rfl⟩ := ih l' x y (by simpa using hl)
      exact ⟨rfl, rfl⟩

end SelfDelimiting

end Lib
