import Mathlib.Algebra.BigOperators.Group.List.Basic
import Mathlib.Data.List.Perm.Basic

/-!
# Slots of a list

A list of slots in which one slot is overwritten (`List.set`): what its members
are, and how the concatenation of what the slots hold changes.
-/

namespace Lib

open scoped List

variable {α β : Type*} {l : List α} {i : ℕ} {a b x : α}

/-- A member of the overwritten list is the new value or sits in another slot. -/
theorem mem_set_cases (h : x ∈ l.set i b) : x = b ∨ ∃ j, j ≠ i ∧ l[j]? = some x := by
  obtain ⟨j, hj⟩ := List.mem_iff_getElem?.1 h
  by_cases hji : j = i
  · subst hji
    rw [List.getElem?_set_self'] at hj
    cases hl : l[j]? with
    | none => rw [hl] at hj; cases hj
    | some y => rw [hl] at hj; exact Or.inl (Option.some.inj hj).symm
  · rw [List.getElem?_set_ne (Ne.symm hji)] at hj
    exact Or.inr ⟨j, hji, hj⟩

theorem mem_set_self (h : l[i]? = some a) : b ∈ l.set i b :=
  List.mem_set (List.getElem?_eq_some_iff.1 h).1 b

/-- A value other than the overwritten one stays. -/
theorem mem_set_of_ne (h : l[i]? = some a) (hx : x ∈ l) (hne : x ≠ a) : x ∈ l.set i b := by
  obtain ⟨j, hj⟩ := List.mem_iff_getElem?.1 hx
  have hji : i ≠ j := by
    rintro rfl
    rw [h] at hj
    exact hne (Option.some.inj hj).symm
  exact List.mem_of_getElem? (by rw [List.getElem?_set_ne hji]; exact hj)

theorem set_of_getElem? (h : l[i]? = some a) : l.set i a = l := by
  obtain ⟨hi, rfl⟩ := List.getElem?_eq_some_iff.1 h
  exact List.set_getElem_self hi

/-- A property of all slots survives overwriting one with a value that has it. -/
theorem forall_set {P : α → Prop} (h : ∀ x ∈ l, P x) (hb : P b) : ∀ x ∈ l.set i b, P x := by
  intro x hx
  rcases mem_set_cases hx with rfl | ⟨j, -, hj⟩
  · exact hb
  · exact h x (List.mem_of_getElem? hj)

/-- What the slots hold after one is overwritten. -/
theorem flatMap_set_perm (f : α → List β) (h : l[i]? = some a) :
    (l.set i b).flatMap f ++ f a ~ l.flatMap f ++ f b := by
  induction l generalizing i with
  | nil => simp at h
  | cons c l ih =>
    cases i with
    | zero =>
      simp only [List.getElem?_cons_zero, Option.some.injEq] at h
      subst h
      simp only [List.set_cons_zero, List.flatMap_cons]
      calc (f b ++ l.flatMap f) ++ f c ~ f c ++ (f b ++ l.flatMap f) := List.perm_append_comm
        _ ~ f c ++ (l.flatMap f ++ f b) := List.Perm.append_left _ List.perm_append_comm
        _ = (f c ++ l.flatMap f) ++ f b := (List.append_assoc _ _ _).symm
    | succ i =>
      simp only [List.getElem?_cons_succ] at h
      simp only [List.set_cons_succ, List.flatMap_cons, List.append_assoc]
      exact List.Perm.append_left _ (ih h)

/-- A sum over the slots after one is overwritten. -/
theorem sum_map_set {M : Type*} [AddCommMonoid M] (f : α → M) (h : l[i]? = some a) :
    ((l.set i b).map f).sum + f a = (l.map f).sum + f b := by
  induction l generalizing i with
  | nil => simp at h
  | cons c l ih =>
    cases i with
    | zero =>
      simp only [List.getElem?_cons_zero, Option.some.injEq] at h
      subst h
      rw [List.set_cons_zero, List.map_cons, List.map_cons, List.sum_cons, List.sum_cons,
        add_comm (f b), add_comm (f c), add_right_comm]
    | succ i =>
      rw [List.set_cons_succ, List.map_cons, List.map_cons, List.sum_cons, List.sum_cons,
        add_assoc, ih h, add_assoc]

/-- How many slots have a property after one is overwritten. -/
theorem countP_set_add {p : α → Bool} (h : l[i]? = some a) :
    (l.set i b).countP p + (p a).toNat = l.countP p + (p b).toNat := by
  have hcount : ∀ l : List α, l.countP p = (l.map fun x => (p x).toNat).sum := by
    intro l
    induction l with
    | nil => rfl
    | cons c l ih =>
      rw [List.countP_cons, ih, List.map_cons, List.sum_cons, add_comm]
      cases p c <;> rfl
  rw [hcount, hcount]
  exact sum_map_set (fun x => (p x).toNat) h

/-- Slots that hold themselves. -/
theorem flatMap_eq_self {f : α → List α} (h : ∀ x ∈ l, f x = [x]) : l.flatMap f = l := by
  rw [List.flatMap_congr h, List.flatMap_singleton']

/-- Where a slot that is kept is found among those that are. -/
theorem getElem?_filter {p : α → Bool} (h : l[i]? = some a) (ha : p a = true) :
    (l.filter p)[(l.take i).countP p]? = some a := by
  induction l generalizing i with
  | nil => simp at h
  | cons c l ih =>
    cases i with
    | zero =>
      obtain rfl : c = a := by simpa using h
      simp [ha]
    | succ i =>
      have hrest := ih (by simpa using h)
      cases hc : p c with
      | true => simpa [hc] using hrest
      | false => simpa [hc] using hrest

/-- Overwriting a slot that is kept with one that is. -/
theorem filter_set_of_pos {p : α → Bool} (h : l[i]? = some a) (ha : p a = true)
    (hb : p b = true) : (l.set i b).filter p = (l.filter p).set ((l.take i).countP p) b := by
  induction l generalizing i with
  | nil => simp at h
  | cons c l ih =>
    cases i with
    | zero =>
      obtain rfl : c = a := by simpa using h
      simp [ha, hb]
    | succ i =>
      have hrest := ih (by simpa using h)
      cases hc : p c with
      | true => simpa [hc] using hrest
      | false => simpa [hc] using hrest

/-- Overwriting a slot that is left out with one that is. -/
theorem filter_set_of_neg {p : α → Bool} (h : l[i]? = some a) (ha : p a = false)
    (hb : p b = false) : (l.set i b).filter p = l.filter p := by
  induction l generalizing i with
  | nil => simp at h
  | cons c l ih =>
    cases i with
    | zero =>
      obtain rfl : c = a := by simpa using h
      simp [ha, hb]
    | succ i =>
      have hrest := ih (by simpa using h)
      cases hc : p c with
      | true => simpa [hc] using hrest
      | false => simpa [hc] using hrest

end Lib
