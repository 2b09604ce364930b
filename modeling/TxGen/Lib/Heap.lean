import Mathlib.Data.List.Basic

/-!
# A binary heap in a list

The sift operations of an array heap, over any comparison `less`: `push` appends
and sifts up, `pop` swaps the root with the last element, sifts the new root down
and removes the last element. Each sift only swaps, so the operations rearrange
(`push_perm`, `pop_perm`, `drain_perm`) whatever `less` is; the order of the
elements is not used.

The loops take a bound on their number of turns; a sift up from `j` needs at most
`j + 1` turns and a sift down in `n` elements at most `n`.
-/

namespace Lib.Heap

variable {α : Type*} (less : α → α → Bool)

/-- Exchange the elements at `i` and `j`. -/
def swap (l : List α) (i j : ℕ) : List α :=
  match l[i]?, l[j]? with
  | some a, some b => (l.set i b).set j a
  | _, _ => l

/-- The comparison of the elements at `i` and `j`. -/
def lessAt (l : List α) (i j : ℕ) : Bool :=
  match l[i]?, l[j]? with
  | some a, some b => less a b
  | _, _ => false

/-- Sift the element at `j` up while it is less than its parent. -/
def up : ℕ → List α → ℕ → List α
  | 0, l, _ => l
  | turns + 1, l, j =>
    let i := (j - 1) / 2
    if i = j ∨ lessAt less l j i = false then l else up turns (swap l i j) i

/-- The lesser child of `i` among the first `n` elements, the left one on a tie. -/
def child (l : List α) (i n : ℕ) : ℕ :=
  let j1 := 2 * i + 1
  if j1 + 1 < n ∧ lessAt less l (j1 + 1) j1 = true then j1 + 1 else j1

/-- Sift the element at `i` down among the first `n` while a child is less. -/
def down : ℕ → List α → ℕ → ℕ → List α
  | 0, l, _, _ => l
  | turns + 1, l, i, n =>
    if 2 * i + 1 ≥ n then l
    else
      let j := child less l i n
      if lessAt less l j i = false then l else down turns (swap l i j) j n

/-- Add `x`. -/
def push (l : List α) (x : α) : List α := up less (l.length + 1) (l ++ [x]) l.length

/-- Remove the root. -/
def pop (l : List α) : Option (α × List α) :=
  let n := l.length - 1
  let l' := down less l.length (swap l 0 n) 0 n
  l'.getLast?.map fun x => (x, l'.dropLast)

/-- Push a list of elements one by one. -/
def pushAll (l : List α) (xs : List α) : List α := xs.foldl (push less) l

/-- Pop until the heap is empty, at most `turns` times. -/
def drainN : ℕ → List α → List α
  | 0, _ => []
  | turns + 1, l =>
    match pop less l with
    | none => []
    | some (x, l') => x :: drainN turns l'

/-- Pop until the heap is empty. -/
def drain (l : List α) : List α := drainN less l.length l

/-! ## The operations rearrange -/

theorem swap_perm (l : List α) (i j : ℕ) : (swap l i j).Perm l := by
  unfold swap
  cases hi : l[i]? with
  | none => exact List.Perm.refl _
  | some a =>
    cases hj : l[j]? with
    | none => exact List.Perm.refl _
    | some b =>
      obtain ⟨hil, rfl⟩ := List.getElem?_eq_some_iff.1 hi
      obtain ⟨hjl, rfl⟩ := List.getElem?_eq_some_iff.1 hj
      exact List.set_set_perm hil hjl

theorem up_perm (turns : ℕ) (l : List α) (j : ℕ) : (up less turns l j).Perm l := by
  induction turns generalizing l j with
  | zero => exact List.Perm.refl _
  | succ turns ih =>
    simp only [up]
    split
    · exact List.Perm.refl _
    · exact (ih _ _).trans (swap_perm l _ _)

theorem down_perm (turns : ℕ) (l : List α) (i n : ℕ) : (down less turns l i n).Perm l := by
  induction turns generalizing l i with
  | zero => exact List.Perm.refl _
  | succ turns ih =>
    simp only [down]
    split
    · exact List.Perm.refl _
    · split
      · exact List.Perm.refl _
      · exact (ih _ _).trans (swap_perm l _ _)

theorem push_perm (l : List α) (x : α) : (push less l x).Perm (x :: l) :=
  (up_perm less _ _ _).trans (List.perm_append_singleton x l)

theorem pushAll_perm (xs l : List α) : (pushAll less l xs).Perm (xs ++ l) := by
  induction xs generalizing l with
  | nil => exact List.Perm.refl _
  | cons x xs ih =>
    have h1 : (pushAll less l (x :: xs)).Perm (xs ++ push less l x) := ih (push less l x)
    refine h1.trans ?_
    refine ((push_perm less l x).append_left xs).trans ?_
    exact List.perm_middle

theorem pop_perm {l l' : List α} {x : α} (h : pop less l = some (x, l')) : l.Perm (x :: l') := by
  simp only [pop, Option.map_eq_some_iff, Prod.mk.injEq] at h
  obtain ⟨y, hy, rfl, rfl⟩ := h
  set m := down less l.length (swap l 0 (l.length - 1)) 0 (l.length - 1) with hm
  have hlm : l.Perm m := ((down_perm less _ _ _ _).trans (swap_perm l _ _)).symm
  have hsplit : m.dropLast ++ [y] = m := List.dropLast_append_getLast? y hy
  calc l.Perm m := hlm
    _ = m.dropLast ++ [y] := hsplit.symm
    _ |>.Perm (y :: m.dropLast) := List.perm_append_singleton _ _

theorem pop_eq_none {l : List α} : pop less l = none ↔ l = [] := by
  have hp : (down less l.length (swap l 0 (l.length - 1)) 0 (l.length - 1)).Perm l :=
    (down_perm less _ _ _ _).trans (swap_perm l _ _)
  simp only [pop, Option.map_eq_none_iff, List.getLast?_eq_none_iff]
  constructor
  · intro h; rw [h] at hp; exact hp.symm.eq_nil
  · rintro rfl; exact hp.eq_nil

theorem drainN_perm (turns : ℕ) (l : List α) (h : l.length ≤ turns) :
    (drainN less turns l).Perm l := by
  induction turns generalizing l with
  | zero =>
    have : l = [] := List.length_eq_zero_iff.1 (by omega)
    rw [this]; exact List.Perm.refl _
  | succ turns ih =>
    simp only [drainN]
    cases hp : pop less l with
    | none => rw [(pop_eq_none less).1 hp]
    | some r =>
      obtain ⟨x, l'⟩ := r
      have hperm := pop_perm less hp
      have hlen := hperm.length_eq
      exact ((ih l' (by simp at hlen; omega)).cons x).trans hperm.symm

theorem drain_perm (l : List α) : (drain less l).Perm l := drainN_perm less _ l (Nat.le_refl _)

end Lib.Heap
