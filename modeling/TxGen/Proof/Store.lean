import TxGen.Proof.Tx
import Mathlib.Data.Nat.Digits.Lemmas

/-!
# The store's transactions

UTXO keys separate outpoints, and each store transaction is described by what it
does to the stored UTXOs and the pending records.
-/

namespace TxGen

open Lib
open scoped List

variable {Hash : Type} {sdk : SDK Hash}

/-! ## Keys -/

theorem digitByte_val {d : ℕ} (hd : d < 10) : (Fin.ofNat 256 (48 + d)).val = 48 + d := by
  simp only [Fin.ofNat]
  omega

/-- Reading the decimal digits back. -/
def readUint (l : Bytes) : ℕ := Nat.ofDigits 10 (l.reverse.map fun b => b.val - 48)

theorem readUint_appendUint (n : ℕ) : readUint (appendUint n) = n := by
  unfold appendUint readUint
  split_ifs with h
  · rw [h]; rfl
  · simp only [List.map_reverse, List.reverse_reverse, List.map_map]
    have hmap : (Nat.digits 10 n).map ((fun b : Fin 256 => b.val - 48) ∘
        fun d => Fin.ofNat 256 (48 + d)) = Nat.digits 10 n := by
      conv_rhs => rw [← List.map_id (Nat.digits 10 n)]
      apply List.map_congr_left
      intro d hd
      have hlt : d < 10 := Nat.digits_lt_base (by decide) hd
      rw [Function.comp, digitByte_val hlt]
      simp
    rw [hmap, Nat.ofDigits_digits]

theorem digit_of_mem_appendUint {n : ℕ} {b : Fin 256} (h : b ∈ appendUint n) :
    48 ≤ b.val ∧ b.val < 58 := by
  unfold appendUint at h
  split_ifs at h
  · rw [List.mem_singleton.1 h]
    decide
  · obtain ⟨d, hd, rfl⟩ := List.mem_map.1 h
    have hlt : d < 10 := Nat.digits_lt_base (by decide) (List.mem_reverse.1 hd)
    rw [digitByte_val hlt]
    omega

/-- A decimal digit is not the separator. -/
theorem sep_not_mem_appendUint (n : ℕ) : (58 : Fin 256) ∉ appendUint n := fun h =>
  absurd (digit_of_mem_appendUint h).2 (by decide)

/-- A list is cut in only one way before a tail without the separator. -/
theorem append_cons_inj {α : Type} {x : α} {a a' b b' : List α} (hb : x ∉ b) (hb' : x ∉ b')
    (h : a ++ x :: b = a' ++ x :: b') : a = a' ∧ b = b' := by
  induction a generalizing a' with
  | nil =>
    cases a' with
    | nil => simpa using h
    | cons y a' =>
      simp only [List.nil_append, List.cons_append, List.cons.injEq] at h
      exact absurd (h.2 ▸ by simp) hb
  | cons y a ih =>
    cases a' with
    | nil =>
      simp only [List.nil_append, List.cons_append, List.cons.injEq] at h
      exact absurd (h.2 ▸ by simp) hb'
    | cons z a' =>
      simp only [List.cons_append, List.cons.injEq] at h
      obtain ⟨ha, hbb⟩ := ih h.2
      exact ⟨by rw [h.1, ha], hbb⟩

/-- The key determines the txid and the output index. -/
theorem key_inj {u v : UTXO} (h : u.key = v.key) : u.txHash = v.txHash ∧ u.txPos = v.txPos := by
  obtain ⟨h1, h2⟩ := append_cons_inj (sep_not_mem_appendUint _) (sep_not_mem_appendUint _) h
  refine ⟨h1, ?_⟩
  rw [← readUint_appendUint u.txPos, h2, readUint_appendUint]

theorem outpoint_of_key {u v : UTXO} (h : u.key = v.key) : sdk.outpoint u = sdk.outpoint v :=
  outpoint_congr (key_inj h).1 (key_inj h).2

/-! ## Transactions on the buckets -/

namespace Store

variable (s : Store Hash)

@[simp] theorem loadAll_savePending (p : PendingBroadcast Hash) :
    (s.savePending p).loadAll = s.loadAll := rfl

@[simp] theorem loadAll_clearPending (txid : Bytes) : (s.clearPending txid).loadAll = s.loadAll :=
  rfl

@[simp] theorem loadAll_setStage (st : Stage) : (s.setStage st).loadAll = s.loadAll := rfl

@[simp] theorem loadPending_setStage (st : Stage) : (s.setStage st).loadPending = s.loadPending :=
  rfl

@[simp] theorem loadPending_saveUTXO (u : UTXO) : (s.saveUTXO u).loadPending = s.loadPending := rfl

variable {s}

theorem mem_savePending {p q : PendingBroadcast Hash} :
    q ∈ (s.savePending p).loadPending ↔ q = p ∨ (q.txID ≠ p.txID ∧ q ∈ s.loadPending) :=
  Table.mem_insert

theorem mem_clearPending {txid : Bytes} {q : PendingBroadcast Hash} :
    q ∈ (s.clearPending txid).loadPending ↔ q.txID ≠ txid ∧ q ∈ s.loadPending := Table.mem_erase

theorem eq_of_txID {p q : PendingBroadcast Hash} (hp : p ∈ s.loadPending) (hq : q ∈ s.loadPending)
    (h : p.txID = q.txID) : p = q := Table.eq_of_key hp hq h

theorem mem_commitPending_pending {txid : Bytes} {spent created : List UTXO}
    {q : PendingBroadcast Hash} (hid : txid ≠ []) :
    q ∈ (s.commitPending txid spent created).loadPending ↔
      q.txID ≠ txid ∧ q ∈ s.loadPending := by
  simp only [commitPending, if_neg hid]
  exact Table.mem_erase

/-- A commit adds no pending record. -/
theorem mem_pending_of_commit {txid : Bytes} {spent created : List UTXO}
    {q : PendingBroadcast Hash} (h : q ∈ (s.commitPending txid spent created).loadPending) :
    q ∈ s.loadPending := by
  by_cases hid : txid = []
  · simp only [commitPending, if_pos hid] at h
    exact h
  · exact ((mem_commitPending_pending hid).1 h).2

/-- A stored UTXO after a commit was stored before, or is created and worth something. -/
theorem mem_commitPending {txid : Bytes} {spent created : List UTXO} {u : UTXO}
    (h : u ∈ (s.commitPending txid spent created).loadAll) :
    (u ∈ created ∧ u.value ≠ 0) ∨ u ∈ s.loadAll := by
  have hrem : ∀ (l : List UTXO) (b : Table UTXO.key),
      u ∈ (l.foldl (fun b v => b.erase v.key) b).values → u ∈ b.values := by
    intro l
    induction l with
    | nil => exact fun b h => h
    | cons v l ih => exact fun b h => (Table.mem_erase.1 (ih _ h)).2
  have hadd : ∀ (l : List UTXO) (b : Table UTXO.key),
      u ∈ (l.foldl (fun b v => if v.value = 0 then b else b.insert v) b).values →
        (u ∈ l ∧ u.value ≠ 0) ∨ u ∈ b.values := by
    intro l
    induction l with
    | nil => exact fun b h => Or.inr h
    | cons v l ih =>
      intro b h
      rcases ih _ h with ⟨h, hv⟩ | h
      · exact Or.inl ⟨List.mem_cons_of_mem _ h, hv⟩
      · dsimp only at h
        split_ifs at h with h0
        · exact Or.inr h
        · rcases Table.mem_insert.1 h with rfl | ⟨-, h⟩
          · exact Or.inl ⟨List.mem_cons_self, h0⟩
          · exact Or.inr h
  exact (hadd _ _ h).imp_right (hrem _ _)

/-- Stores with the same UTXOs, pending records and stage are equal. -/
theorem ext_mem {s s' : Store Hash} (hu : s.loadAll ~ s'.loadAll)
    (hp : s.loadPending = s'.loadPending) (hst : s.stage = s'.stage) : s = s' := by
  have hutxos : s.utxos = s'.utxos := Table.ext_mem fun _ => hu.mem_iff
  have hpending : s.pending = s'.pending := by
    apply Table.ext_mem
    intro p
    show p ∈ s.loadPending ↔ p ∈ s'.loadPending
    rw [hp]
  cases s
  cases s'
  simp_all

/-- Storing the outputs of a transaction that are worth something. -/
theorem values_foldl_insert {created : List UTXO} {b : Table UTXO.key}
    (hnew : ∀ c ∈ created, ∀ x ∈ b.values, x.key ≠ c.key)
    (hkeys : created.Pairwise (fun c d => c.key ≠ d.key)) :
    (created.foldl (fun b u => if u.value = 0 then b else b.insert u) b).values.Perm
      (created.filter (·.value ≠ 0) ++ b.values) := by
  induction created generalizing b with
  | nil => exact List.Perm.refl _
  | cons c cs ih =>
    obtain ⟨hc, hcs⟩ := List.pairwise_cons.1 hkeys
    rw [List.foldl_cons]
    by_cases h0 : c.value = 0
    · rw [if_pos h0, List.filter_cons_of_neg (by simpa using h0)]
      exact ih (fun d hd => hnew d (List.mem_cons_of_mem _ hd)) hcs
    · rw [if_neg h0, List.filter_cons_of_pos (by simpa using h0)]
      have hins := Table.values_insert (hnew c List.mem_cons_self)
      have hnew' : ∀ d ∈ cs, ∀ x ∈ (b.insert c).values, x.key ≠ d.key := by
        intro d hd x hx
        rcases List.mem_cons.1 (hins.mem_iff.1 hx) with rfl | hx
        · exact hc d hd
        · exact hnew d (List.mem_cons_of_mem _ hd) x hx
      calc _ ~ cs.filter (·.value ≠ 0) ++ (b.insert c).values := ih hnew' hcs
        _ ~ cs.filter (·.value ≠ 0) ++ c :: b.values := List.Perm.append_left _ hins
        _ ~ c :: cs.filter (·.value ≠ 0) ++ b.values := List.perm_middle

/-- **`CommitPending` of a transaction that spends a stored UTXO into new ones**
takes the one out and puts the others in. -/
theorem loadAll_commitPending {txid : Bytes} {u : UTXO} {created : List UTXO}
    (hu : u ∈ s.loadAll) (hnew : ∀ c ∈ created, ∀ x ∈ s.loadAll, x.key ≠ c.key)
    (hkeys : created.Pairwise (fun c d => c.key ≠ d.key)) :
    (u :: (s.commitPending txid [u] created).loadAll).Perm
      (created.filter (·.value ≠ 0) ++ s.loadAll) := by
  have hnew' : ∀ c ∈ created, ∀ x ∈ (s.utxos.erase u.key).values, x.key ≠ c.key :=
    fun c hc x hx => hnew c hc x (Table.mem_erase.1 hx).2
  have hval : (s.commitPending txid [u] created).loadAll.Perm
      (created.filter (·.value ≠ 0) ++ (s.utxos.erase u.key).values) :=
    values_foldl_insert hnew' hkeys
  calc u :: (s.commitPending txid [u] created).loadAll
      ~ u :: (created.filter (·.value ≠ 0) ++ (s.utxos.erase u.key).values) := hval.cons u
    _ ~ created.filter (·.value ≠ 0) ++ u :: (s.utxos.erase u.key).values := List.perm_middle.symm
    _ ~ created.filter (·.value ≠ 0) ++ s.loadAll :=
        List.Perm.append_left _ (Table.values_erase hu).symm

end Store

end TxGen
