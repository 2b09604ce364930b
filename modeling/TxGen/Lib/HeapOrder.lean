import Mathlib.Data.List.Sort
import Mathlib.Logic.Equiv.Basic
import Mathlib.Order.WithBot
import TxGen.Lib.Heap

/-!
# The order of a binary heap

When `less` compares keys in a linear order, the heap of `Lib.Heap` is a priority queue:
`push` and `pop` keep it a heap (`IsHeap.push`, `IsHeap.pop`), the element that `pop`
removes has the least key (`IsHeap.pop_le`), and `drain` sorts (`IsHeap.drain_sorted`).

A sift is a matter of ranks by position, a function on the natural numbers, and of its
swaps: positions past the end of the list have the greatest rank, so that the bounds of
the list play no part in it.
-/

namespace Lib.Heap

/-! ## Ranks by position -/

section Rank

variable {R : Type*} [LinearOrder R] {f : ℕ → R} {i j : ℕ}

/-- The position above `i`. -/
def parent (i : ℕ) : ℕ := (i - 1) / 2

theorem parent_lt (h : 0 < i) : parent i < i := by
  unfold parent
  omega

/-- The two positions below `i`. -/
theorem child_cases {c : ℕ} (h0 : 0 < c) (h : parent c = i) : c = 2 * i + 1 ∨ c = 2 * i + 2 := by
  unfold parent at h
  omega

/-- No position ranks before the one above it. -/
def Ordered (f : ℕ → R) : Prop := ∀ i, 0 < i → f (parent i) ≤ f i

/-- The ranks are in order but for `j` and the position above it. -/
structure UpOrder (f : ℕ → R) (j : ℕ) : Prop where
  except : ∀ i, 0 < i → i ≠ j → f (parent i) ≤ f i
  grand : 0 < j → ∀ c, 0 < c → parent c = j → f (parent j) ≤ f c

/-- The ranks are in order but for `i` and the positions below it. -/
structure DownOrder (f : ℕ → R) (i : ℕ) : Prop where
  except : ∀ c, 0 < c → parent c ≠ i → f (parent c) ≤ f c
  grand : 0 < i → ∀ c, 0 < c → parent c = i → f (parent i) ≤ f c

/-- The root has the least rank. -/
theorem Ordered.root_le (h : Ordered f) (i : ℕ) : f 0 ≤ f i := by
  induction i using Nat.strong_induction_on with
  | _ i ih =>
    rcases Nat.eq_zero_or_pos i with rfl | h0
    · exact le_rfl
    · exact (ih _ (parent_lt h0)).trans (h i h0)

theorem UpOrder.ordered (h : UpOrder f j) (hstop : 0 < j → f (parent j) ≤ f j) : Ordered f := by
  intro i h0
  by_cases hij : i = j
  · rw [hij] at h0 ⊢
    exact hstop h0
  · exact h.except i h0 hij

/-- A step of a sift up: `j` changes places with the position above it. -/
theorem UpOrder.swap (h : UpOrder f j) (h0 : 0 < j) (hlt : f j < f (parent j)) :
    UpOrder (f ∘ Equiv.swap (parent j) j) (parent j) := by
  have hp := parent_lt h0
  have hother : ∀ k, k ≠ parent j → k ≠ j → (f ∘ Equiv.swap (parent j) j) k = f k := by
    intro k hk hk'
    rw [Function.comp, Equiv.swap_apply_of_ne_of_ne hk hk']
  have hj : (f ∘ Equiv.swap (parent j) j) j = f (parent j) := by
    rw [Function.comp, Equiv.swap_apply_right]
  have hpj : (f ∘ Equiv.swap (parent j) j) (parent j) = f j := by
    rw [Function.comp, Equiv.swap_apply_left]
  constructor
  · intro i hi hip
    by_cases hij : i = j
    · rw [hij, hj, hpj]
      exact hlt.le
    rw [hother i hip hij]
    by_cases hpi : parent i = j
    · rw [hpi, hj]
      exact h.grand h0 i hi hpi
    by_cases hpp : parent i = parent j
    · rw [hpp, hpj]
      exact hlt.le.trans (hpp ▸ h.except i hi hij)
    · rw [hother _ hpp hpi]
      exact h.except i hi hij
  · intro hp0 c hc hcp
    have hpp := parent_lt hp0
    have hup : f (parent (parent j)) ≤ f (parent j) := h.except _ hp0 (by omega)
    rw [hother _ (by omega) (by omega)]
    by_cases hcj : c = j
    · rw [hcj, hj]
      exact hup
    · have hlt' := parent_lt hc
      rw [hother c (by omega) hcj]
      exact hup.trans (hcp ▸ h.except c hc hcj)

theorem DownOrder.ordered (h : DownOrder f i) (hstop : ∀ c, 0 < c → parent c = i → f i ≤ f c) :
    Ordered f := by
  intro c hc
  by_cases hci : parent c = i
  · rw [hci]
    exact hstop c hc hci
  · exact h.except c hc hci

/-- A step of a sift down: `i` changes places with the lesser of the positions below it. -/
theorem DownOrder.swap (h : DownOrder f i) (h0 : 0 < j) (hj : parent j = i)
    (hmin : ∀ c, 0 < c → parent c = i → f j ≤ f c) (hlt : f j < f i) :
    DownOrder (f ∘ Equiv.swap i j) j := by
  have hij : i < j := hj ▸ parent_lt h0
  have hother : ∀ k, k ≠ i → k ≠ j → (f ∘ Equiv.swap i j) k = f k := by
    intro k hk hk'
    rw [Function.comp, Equiv.swap_apply_of_ne_of_ne hk hk']
  have hfi : (f ∘ Equiv.swap i j) i = f j := by
    rw [Function.comp, Equiv.swap_apply_left]
  have hfj : (f ∘ Equiv.swap i j) j = f i := by
    rw [Function.comp, Equiv.swap_apply_right]
  constructor
  · intro c hc hcj
    by_cases h1 : c = j
    · rw [h1, hj, hfi, hfj]
      exact hlt.le
    by_cases h2 : c = i
    · rw [h2] at hc ⊢
      have hp := parent_lt hc
      rw [hfi, hother _ (by omega) (by omega)]
      exact h.grand hc j h0 hj
    rw [hother c h2 h1]
    by_cases h3 : parent c = i
    · rw [h3, hfi]
      exact hmin c hc h3
    · rw [hother _ h3 hcj]
      exact h.except c hc h3
  · intro _ c hc hcj
    have hlt' := parent_lt hc
    rw [hj, hfi, hother c (by omega) (by omega), ← hcj]
    exact h.except c hc (by omega)

end Rank

/-! ## Sifts -/

variable {α κ : Type*} {key : α → κ} {less : α → α → Bool} {l l' : List α} {x : α} {i j n : ℕ}

/-- The rank of position `i` among the first `n` of `l`. -/
def rank (key : α → κ) (n : ℕ) (l : List α) (i : ℕ) : WithTop κ :=
  if i < n then (l[i]?).elim ⊤ fun a => (key a : WithTop κ) else ⊤

theorem rank_of_le (h : n ≤ i) : rank key n l i = ⊤ := by
  rw [rank, if_neg (by omega)]

theorem rank_of_getElem? (hn : i < n) (hi : l[i]? = some x) : rank key n l i = key x := by
  rw [rank, if_pos hn, hi]
  rfl

theorem getElem?_swap (hi : i < l.length) (hj : j < l.length) (k : ℕ) :
    (swap l i j)[k]? = l[Equiv.swap i j k]? := by
  rw [swap, List.getElem?_eq_getElem hi, List.getElem?_eq_getElem hj]
  dsimp only
  rw [Equiv.swap_apply_def]
  by_cases h1 : k = j
  · rw [h1, List.getElem?_set_self (by rw [List.length_set]; exact hj), if_pos rfl,
      ← List.getElem?_eq_getElem hi]
    split_ifs with h2
    · rw [h2]
    · rfl
  rw [List.getElem?_set_ne (Ne.symm h1)]
  by_cases h2 : k = i
  · rw [if_pos h2, h2, List.getElem?_set_self hi, List.getElem?_eq_getElem hj]
  · rw [if_neg h2, if_neg h1, List.getElem?_set_ne (Ne.symm h2)]

theorem rank_swap (hn : n ≤ l.length) (hi : i < n) (hj : j < n) :
    rank key n (swap l i j) = rank key n l ∘ Equiv.swap i j := by
  funext k
  rw [Function.comp, rank, rank, getElem?_swap (by omega) (by omega)]
  have hk : k < n ↔ Equiv.swap i j k < n := by
    rw [Equiv.swap_apply_def]
    split_ifs <;> omega
  by_cases h : k < n
  · rw [if_pos h, if_pos (hk.1 h)]
  · rw [if_neg h, if_neg (mt hk.2 h)]

section Sift

variable [LinearOrder κ] (hless : ∀ a b, less a b = true ↔ key a < key b)

include hless

theorem lessAt_iff (hn : n ≤ l.length) (hi : i < n) (hj : j < n) :
    lessAt less l i j = true ↔ rank key n l i < rank key n l j := by
  have hi' : l[i]? = some l[i] := List.getElem?_eq_getElem (by omega)
  have hj' : l[j]? = some l[j] := List.getElem?_eq_getElem (by omega)
  rw [rank_of_getElem? hi hi', rank_of_getElem? hj hj', lessAt, hi', hj', WithTop.coe_lt_coe]
  exact hless _ _

/-- A sift up from `j` ends in order, and needs at most `j + 1` turns. -/
theorem up_ordered {turns : ℕ} (hturns : j < turns) (hj : j < l.length)
    (h : UpOrder (rank key l.length l) j) : Ordered (rank key l.length (up less turns l j)) := by
  induction turns generalizing l j with
  | zero => omega
  | succ turns ih =>
    rw [up]
    rcases Nat.eq_zero_or_pos j with rfl | h0
    · rw [if_pos (Or.inl rfl)]
      exact h.ordered fun h0 => absurd h0 (Nat.lt_irrefl 0)
    have hp : (j - 1) / 2 < j := parent_lt h0
    have hiff := lessAt_iff hless le_rfl hj (hp.trans hj)
    split_ifs with hstop
    · refine h.ordered fun _ => not_lt.1 fun hlt => ?_
      rw [hiff.2 hlt] at hstop
      simp at hstop
      omega
    · have hlt := hiff.1 (by simpa using mt Or.inr hstop)
      have hlen : (swap l ((j - 1) / 2) j).length = l.length := (swap_perm l _ _).length_eq
      have hnext := h.swap h0 hlt
      rw [parent, ← rank_swap le_rfl (hp.trans hj) hj] at hnext
      have := ih (l := swap l ((j - 1) / 2) j) (j := (j - 1) / 2) (by omega) (by omega)
        (by rw [hlen]; exact hnext)
      rwa [hlen] at this

/-- The position that a sift down compares with is below `i`, and the lesser of the two. -/
theorem child_spec (hn : n ≤ l.length) (h : 2 * i + 1 < n) :
    0 < child less l i n ∧ parent (child less l i n) = i ∧ child less l i n < n ∧
      ∀ c, 0 < c → parent c = i → rank key n l (child less l i n) ≤ rank key n l c := by
  unfold child
  dsimp only
  split_ifs with hc
  · have hlt := (lessAt_iff hless hn hc.1 h).1 hc.2
    refine ⟨by omega, by unfold parent; omega, hc.1, fun c hc0 hci => ?_⟩
    rcases child_cases hc0 hci with rfl | rfl
    · exact hlt.le
    · exact le_rfl
  · refine ⟨by omega, by unfold parent; omega, h, fun c hc0 hci => ?_⟩
    rcases child_cases hc0 hci with rfl | rfl
    · exact le_rfl
    by_cases hin : 2 * i + 2 < n
    · exact not_lt.1 fun hlt => hc ⟨hin, (lessAt_iff hless hn hin h).2 hlt⟩
    · rw [rank_of_le (not_lt.1 hin)]
      exact le_top

/-- A sift down among the first `n` ends in order, and needs at most `n - i` turns. -/
theorem down_ordered {turns : ℕ} (hturns : n ≤ turns + i) (hn : n ≤ l.length)
    (h : DownOrder (rank key n l) i) : Ordered (rank key n (down less turns l i n)) := by
  have hout : n ≤ 2 * i + 1 → Ordered (rank key n l) := by
    intro hle
    refine h.ordered fun c hc hci => ?_
    rw [rank_of_le (i := c) (by rcases child_cases hc hci with rfl | rfl <;> omega)]
    exact le_top
  induction turns generalizing l i with
  | zero => exact hout (by omega)
  | succ turns ih =>
    rw [down]
    split_ifs with hend
    · exact hout hend
    obtain ⟨hj0, hji, hjn, hmin⟩ := child_spec hless hn (not_le.1 hend)
    have hiff := lessAt_iff hless hn hjn (by omega : i < n)
    dsimp only
    generalize child less l i n = j at hj0 hji hjn hmin hiff ⊢
    split_ifs with hstop
    · refine h.ordered fun c hc hci => ?_
      have hle : rank key n l i ≤ rank key n l j :=
        not_lt.1 fun hlt => by rw [hiff.2 hlt] at hstop; cases hstop
      exact hle.trans (hmin c hc hci)
    · have hlt := hiff.1 (by simpa using hstop)
      have hij : i < j := hji ▸ parent_lt hj0
      have hnext := h.swap hj0 hji hmin hlt
      have hlen : n ≤ (swap l i j).length := by
        rw [(swap_perm l i j).length_eq]
        exact hn
      rw [← rank_swap hn (by omega) hjn] at hnext
      refine ih (by omega) hlen hnext fun hle => hnext.ordered fun c hc hci => ?_
      rw [rank_of_le (i := c) (by rcases child_cases hc hci with rfl | rfl <;> omega)]
      exact le_top

omit hless in
/-- A sift down among the first `n` leaves the rest alone. -/
theorem getElem?_down_of_le {turns k : ℕ} (hn : n ≤ l.length) (hk : n ≤ k) :
    (down less turns l i n)[k]? = l[k]? := by
  induction turns generalizing l i with
  | zero => rfl
  | succ turns ih =>
    rw [down]
    split_ifs with hend
    · rfl
    dsimp only
    have hj : child less l i n < n := by
      unfold child
      dsimp only
      split_ifs <;> omega
    split_ifs with hstop
    · rfl
    · rw [ih (by rw [(swap_perm l _ _).length_eq]; exact hn), getElem?_swap (by omega) (by omega),
        Equiv.swap_apply_of_ne_of_ne (by omega) (by omega)]

/-! ## The priority queue -/

omit hless in
/-- The list is a heap: no element has a lesser key than the one above it. -/
def IsHeap (key : α → κ) (l : List α) : Prop := Ordered (rank key l.length l)

omit hless in
theorem isHeap_nil : IsHeap key ([] : List α) := by
  intro i _
  rw [rank_of_le (i := i) (show ([] : List α).length ≤ i from Nat.zero_le i)]
  exact le_top

omit hless in
/-- The root of a heap has the least key. -/
theorem IsHeap.head_le (h : IsHeap key l) (hx : l[0]? = some x) {y : α} (hy : y ∈ l) :
    key x ≤ key y := by
  obtain ⟨i, hi⟩ := List.mem_iff_getElem?.1 hy
  have hlt := (List.getElem?_eq_some_iff.1 hi).1
  have hroot := h.root_le i
  rwa [rank_of_getElem? (by omega) hx, rank_of_getElem? hlt hi, WithTop.coe_le_coe] at hroot

theorem IsHeap.push (h : IsHeap key l) (x : α) : IsHeap key (push less l x) := by
  have hlen : (l ++ [x]).length = l.length + 1 := by simp
  have hstart : UpOrder (rank key (l ++ [x]).length (l ++ [x])) l.length := by
    constructor
    · intro i h0 hi
      by_cases hlt : i < l.length
      · have hrank : ∀ k, k < l.length →
            rank key (l ++ [x]).length (l ++ [x]) k = rank key l.length l k := by
          intro k hk
          rw [rank, rank, if_pos (by omega), if_pos hk, List.getElem?_append_left hk]
        rw [hrank i hlt, hrank _ ((parent_lt h0).trans hlt)]
        exact h i h0
      · rw [rank_of_le (i := i) (by omega)]
        exact le_top
    · intro _ c hc hcl
      have hlt := parent_lt hc
      rw [rank_of_le (i := c) (by omega)]
      exact le_top
  unfold IsHeap Heap.push
  rw [(up_perm less _ _ _).length_eq]
  exact up_ordered hless (by omega) (by omega) hstart

theorem IsHeap.pushAll (h : IsHeap key l) (xs : List α) : IsHeap key (pushAll less l xs) := by
  induction xs generalizing l with
  | nil => exact h
  | cons x xs ih => exact ih (h.push hless x)

omit hless in
/-- `pop` removes the root. -/
theorem pop_head (h : pop less l = some (x, l')) : l[0]? = some x := by
  have hne : 0 < l.length := by
    rw [(pop_perm less h).length_eq]
    simp
  simp only [pop, Option.map_eq_some_iff, Prod.mk.injEq] at h
  obtain ⟨y, hy, rfl, -⟩ := h
  have hlen : (down less l.length (swap l 0 (l.length - 1)) 0 (l.length - 1)).length = l.length :=
    ((down_perm less _ _ _ _).trans (swap_perm l _ _)).length_eq
  rw [List.getLast?_eq_getElem?, hlen, getElem?_down_of_le (by rw [(swap_perm l _ _).length_eq]; omega)
    le_rfl, getElem?_swap hne (by omega), Equiv.swap_apply_right] at hy
  exact hy

omit hless in
/-- What `pop` removes has the least key. -/
theorem IsHeap.pop_le (h : IsHeap key l) (hp : pop less l = some (x, l')) {y : α} (hy : y ∈ l) :
    key x ≤ key y := h.head_le (pop_head hp) hy

theorem IsHeap.pop (h : IsHeap key l) (hp : pop less l = some (x, l')) : IsHeap key l' := by
  have hne : 0 < l.length := by
    rw [(pop_perm less hp).length_eq]
    simp
  simp only [Heap.pop, Option.map_eq_some_iff, Prod.mk.injEq] at hp
  obtain ⟨y, -, -, rfl⟩ := hp
  set n := l.length - 1 with hn
  have hswap : (swap l 0 n).length = l.length := (swap_perm l _ _).length_eq
  -- the last element is now on top, and the pairs that do not touch it are as they were
  have hstart : DownOrder (rank key n (swap l 0 n)) 0 := by
    refine ⟨fun c hc hc0 => ?_, fun h0 => absurd h0 (Nat.lt_irrefl 0)⟩
    by_cases hcn : c < n
    · have hrank : ∀ k, k ≠ 0 → k < n → rank key n (swap l 0 n) k = rank key l.length l k := by
        intro k hk0 hk
        rw [rank, rank, if_pos hk, if_pos (by omega), getElem?_swap hne (by omega),
          Equiv.swap_apply_of_ne_of_ne hk0 (by omega)]
      rw [hrank c (by omega) hcn, hrank _ hc0 ((parent_lt hc).trans hcn)]
      exact h c hc
    · rw [rank_of_le (i := c) (not_lt.1 hcn)]
      exact le_top
  have hdown : Ordered (rank key n (down less l.length (swap l 0 n) 0 n)) :=
    down_ordered hless (by omega) (by omega) hstart
  have hlen : (down less l.length (swap l 0 n) 0 n).length = l.length :=
    ((down_perm less _ _ _ _).trans (swap_perm l _ _)).length_eq
  unfold IsHeap
  generalize down less l.length (swap l 0 n) 0 n = m at hdown hlen
  have hrank : rank key m.dropLast.length m.dropLast = rank key n m := by
    funext k
    rw [List.length_dropLast, hlen, ← hn, rank, rank]
    split_ifs with hk
    · rw [List.getElem?_dropLast, if_pos (by omega)]
    · rfl
  rw [hrank]
  exact hdown

theorem IsHeap.drainN_sorted {turns : ℕ} (h : IsHeap key l) (hl : l.length ≤ turns) :
    (drainN less turns l).Pairwise fun a b => key a ≤ key b := by
  induction turns generalizing l with
  | zero => exact List.Pairwise.nil
  | succ turns ih =>
    rw [drainN]
    cases hp : Heap.pop less l with
    | none => exact List.Pairwise.nil
    | some r =>
      obtain ⟨x, l'⟩ := r
      have hperm := pop_perm less hp
      have hlen := hperm.length_eq
      rw [List.length_cons] at hlen
      refine List.Pairwise.cons (fun y hy => ?_) (ih (h.pop hless hp) (by omega))
      have hy' := (drainN_perm less turns l' (by omega)).mem_iff.1 hy
      exact h.pop_le hp (hperm.mem_iff.2 (List.mem_cons_of_mem x hy'))

/-- `drain` sorts by key. -/
theorem IsHeap.drain_sorted (h : IsHeap key l) :
    (drain less l).Pairwise fun a b => key a ≤ key b := h.drainN_sorted hless le_rfl

end Sift

end Lib.Heap
