import Mathlib.Data.Multiset.Basic
import TxGen.Lib.HeapOrder
import TxGen.Lib.Machine
import TxGen.Spec.Queue

/-!
# The queue is a priority multiset

Every call of the queue does to its contents what the call of a priority multiset does
(`Op.Meets`): nothing is lost or duplicated, and what comes out has the least
`sortHeight` (`queue_priority_multiset`).
-/

namespace TxGen.Queue

open Lib
open scoped List

/-! ## Contents -/

theorem push_perm (q : List UTXO) (u : UTXO) : push q u ~ u :: q := Heap.push_perm _ q u

theorem pushAll_perm (q us : List UTXO) : pushAll q us ~ us ++ q := Heap.pushAll_perm _ us q

theorem restore_perm (us : List UTXO) : restore us ~ us := by
  have h := pushAll_perm [] us
  rwa [List.append_nil] at h

theorem pop_perm {q rest : List UTXO} {u : UTXO} (h : pop q = some (u, rest)) : q ~ u :: rest :=
  Heap.pop_perm _ h

theorem drain_perm (q : List UTXO) : drain q ~ q := Heap.drain_perm _ q

/-! ## Order -/

/-- What the queue orders by. -/
def rankOf (u : UTXO) : ℤ := sortHeight u.height

theorem less_iff (a b : UTXO) : less a b = true ↔ rankOf a < rankOf b := by
  simp [less, rankOf]

/-- Confirmed UTXOs rank by height, and one that ranks after an unconfirmed one is
unconfirmed or confirmed at a height from 2^62 on. -/
theorem height_of_rankOf_le {a b : UTXO} (h : rankOf a ≤ rankOf b) :
    (a.height ≠ 0 → b.height ≠ 0 → a.height ≤ b.height) ∧
      (a.height = 0 → b.height ≠ 0 → 2 ^ 62 ≤ b.height) := by
  unfold rankOf sortHeight at h
  constructor
  · intro ha hb
    rwa [if_neg ha, if_neg hb] at h
  · intro ha hb
    rwa [if_pos ha, if_neg hb] at h

/-- What a call does to a priority multiset: its contents before, what the call returns,
and its contents after. -/
def Op.Meets (m : Multiset UTXO) (out : List UTXO) (m' : Multiset UTXO) : Op → Prop
  | .push u => out = [] ∧ m' = u ::ₘ m
  | .pop => (m = 0 ∧ out = [] ∧ m' = 0) ∨
      ∃ u, out = [u] ∧ m = u ::ₘ m' ∧ ∀ v ∈ m, rankOf u ≤ rankOf v
  | .drain => (out : Multiset UTXO) = m ∧ m' = 0 ∧ out.Pairwise fun a b => rankOf a ≤ rankOf b
  | .restore (some stored) => out = [] ∧ m' = stored
  | .restore none => out = [] ∧ m' = m

/-- The slice is a heap after every call. -/
theorem isHeap_call {q : List UTXO} (h : Heap.IsHeap rankOf q) (op : Op) :
    Heap.IsHeap rankOf (op.call q).2 := by
  cases op with
  | push u => exact h.push less_iff u
  | pop =>
    unfold Op.call
    dsimp only
    split
    · rename_i u rest hp
      exact h.pop less_iff hp
    · exact h
  | drain => exact Heap.isHeap_nil
  | restore loaded =>
    cases loaded with
    | none => exact h
    | some stored => exact Heap.isHeap_nil.pushAll less_iff stored

/-- A call on a heap is the call of the priority multiset of its contents. -/
theorem call_meets {q : List UTXO} (h : Heap.IsHeap rankOf q) (op : Op) :
    op.Meets q (op.call q).1 (op.call q).2 := by
  cases op with
  | push u => exact ⟨rfl, Multiset.coe_eq_coe.2 (push_perm q u)⟩
  | pop =>
    unfold Op.call
    dsimp only
    split
    · rename_i u rest hp
      refine Or.inr ⟨u, rfl, Multiset.coe_eq_coe.2 (pop_perm hp), fun v hv => ?_⟩
      exact h.pop_le hp (Multiset.mem_coe.1 hv)
    · rename_i hp
      obtain rfl : q = [] := (Heap.pop_eq_none less).1 hp
      exact Or.inl ⟨rfl, rfl, rfl⟩
  | drain => exact ⟨Multiset.coe_eq_coe.2 (drain_perm q), rfl, h.drain_sorted less_iff⟩
  | restore loaded =>
    cases loaded with
    | none => exact ⟨rfl, rfl⟩
    | some stored => exact ⟨rfl, Multiset.coe_eq_coe.2 (restore_perm stored)⟩

/-- **The queue is a priority multiset.** In every sequence of calls on a new queue, each
call meets its specification: the contents change by exactly what is pushed, restored or
returned, `pop` returns a UTXO of least `sortHeight`, and `drain` all of them in the
order of `sortHeight`. That order is by height for confirmed UTXOs, and puts an
unconfirmed one after every height below 2^62. -/
theorem queue_priority_multiset (ops : List Op) :
    Along (fun q op => (Op.call q op).2) (fun q op => op.Meets q (op.call q).1 (op.call q).2)
      [] ops ∧
    ∀ a b : UTXO, rankOf a ≤ rankOf b →
      (a.height ≠ 0 → b.height ≠ 0 → a.height ≤ b.height) ∧
      (a.height = 0 → b.height ≠ 0 → 2 ^ 62 ≤ b.height) := by
  refine ⟨?_, fun a b h => height_of_rankOf_le h⟩
  exact Along.of_inv (C := fun _ _ => True) (I := Heap.IsHeap rankOf)
    (fun q op h _ => isHeap_call h op) (fun q op h _ => call_meets h op)
    (Along.of_forall fun _ _ _ => trivial) Heap.isHeap_nil

end TxGen.Queue
