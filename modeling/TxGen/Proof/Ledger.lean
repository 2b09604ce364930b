import TxGen.Proof.Store
import TxGen.Spec.World

/-!
# The ledger behind the store

What the store is for, said of the history alone: the imported outputs and the
committed transactions determine which outputs are unspent (`Unspent`). `Ledger`
ties a store to a history: the `utxos` bucket is the set of unspent outputs, the
satoshis balance, and every pending record spends a stored UTXO that no other
pending record spends. Each store transaction keeps it, provided

* an imported output is not already known (`Ledger.saveUTXO`),
* a committed or saved record spends a stored UTXO, and the pending records that
  spend the same UTXO carry its txid (`Ledger.commit`, `Ledger.savePending`).

Two facts about txids are assumed: distinct transactions have distinct txids
(`Function.Injective sdk.txHash`), and the imported outputs were not created by
the transactions committed here (`Fresh`).
-/

namespace TxGen

open Lib
open scoped List

variable {Hash : Type}

/-! ## Histories -/

/-- The outputs a history speaks of: the imported ones and those created by
committed transactions. -/
def known (imported : List UTXO) (committed : List (PendingBroadcast Hash)) : List UTXO :=
  imported ++ committed.flatMap PendingBroadcast.created

/-- The output `u` is unspent: imported, or a non-zero output of a committed
transaction, and spent by none. -/
def Unspent (imported : List UTXO) (committed : List (PendingBroadcast Hash)) (u : UTXO) : Prop :=
  (u ∈ imported ∨ ∃ p ∈ committed, u ∈ p.created ∧ u.value ≠ 0) ∧ ∀ p ∈ committed, u ∉ p.spent

/-- The imported outputs were created by transactions other than the committed
ones. -/
def Fresh (sdk : SDK Hash) (imported : List UTXO) (committed : List (PendingBroadcast Hash)) :
    Prop :=
  ∀ u ∈ imported, ∀ p ∈ committed, sdk.newHashFromHex u.txHash ≠ sdk.newHashFromHex p.txID

instance [DecidableEq Hash] (sdk : SDK Hash) (imported : List UTXO)
    (committed : List (PendingBroadcast Hash)) : Decidable (Fresh sdk imported committed) :=
  inferInstanceAs (Decidable (∀ u ∈ imported, ∀ p ∈ committed,
    sdk.newHashFromHex u.txHash ≠ sdk.newHashFromHex p.txID))

/-- The value of a list of outputs. -/
def total (us : List UTXO) : ℕ := (us.map UTXO.value).sum

/-- The value spent by committed transactions. -/
def totalSpent (committed : List (PendingBroadcast Hash)) : ℕ :=
  (committed.map fun p => total p.spent).sum

/-- The value created by committed transactions. -/
def totalCreated (committed : List (PendingBroadcast Hash)) : ℕ :=
  (committed.map fun p => total p.created).sum

/-- The satoshis a transaction pays in fees. -/
def PendingBroadcast.fee (p : PendingBroadcast Hash) : ℕ := total p.spent - total p.created

section History

variable {imported : List UTXO} {committed : List (PendingBroadcast Hash)} {u : UTXO}
  {p : PendingBroadcast Hash}

theorem mem_known : u ∈ known imported committed ↔
    u ∈ imported ∨ ∃ p ∈ committed, u ∈ p.created := by
  simp [known]

theorem mem_known_concat : u ∈ known imported (committed ++ [p]) ↔
    u ∈ known imported committed ∨ u ∈ p.created := by
  simp [known, or_assoc]

theorem Unspent.known (h : Unspent imported committed u) : u ∈ known imported committed := by
  rcases h.1 with h | ⟨p, hp, hu, -⟩
  · exact mem_known.2 (Or.inl h)
  · exact mem_known.2 (Or.inr ⟨p, hp, hu⟩)

theorem unspent_concat (hnew : u ∈ p.created → ∀ q ∈ committed, u ∉ q.spent) :
    Unspent imported (committed ++ [p]) u ↔
      u ∉ p.spent ∧ ((u ∈ p.created ∧ u.value ≠ 0) ∨ Unspent imported committed u) := by
  unfold Unspent
  simp only [List.mem_append, List.mem_singleton]
  constructor
  · rintro ⟨h | ⟨q, hq | rfl, hu⟩, hs⟩
    · exact ⟨hs p (Or.inr rfl), Or.inr ⟨Or.inl h, fun q hq => hs q (Or.inl hq)⟩⟩
    · exact ⟨hs p (Or.inr rfl), Or.inr ⟨Or.inr ⟨q, hq, hu⟩, fun q hq => hs q (Or.inl hq)⟩⟩
    · exact ⟨hs q (Or.inr rfl), Or.inl hu⟩
  · rintro ⟨hp, hu | ⟨h, hs⟩⟩
    · refine ⟨Or.inr ⟨p, Or.inr rfl, hu⟩, ?_⟩
      rintro q (hq | rfl)
      · exact hnew hu.1 q hq
      · exact hp
    · refine ⟨?_, ?_⟩
      · rcases h with h | ⟨q, hq, hu⟩
        · exact Or.inl h
        · exact Or.inr ⟨q, Or.inl hq, hu⟩
      · rintro q (hq | rfl)
        · exact hs q hq
        · exact hp

theorem Fresh.of_concat {sdk : SDK Hash} (h : Fresh sdk imported (committed ++ [p])) :
    Fresh sdk imported committed :=
  fun u hu q hq => h u hu q (List.mem_append_left _ hq)

theorem total_cons (v : UTXO) (us : List UTXO) : total (v :: us) = v.value + total us := rfl

theorem total_append (us vs : List UTXO) : total (us ++ vs) = total us + total vs := by
  simp [total]

theorem total_perm {us vs : List UTXO} (h : us ~ vs) : total us = total vs :=
  (h.map UTXO.value).sum_eq

theorem total_filter (us : List UTXO) : total (us.filter (·.value ≠ 0)) = total us := by
  induction us with
  | nil => rfl
  | cons v us ih =>
    by_cases h : v.value = 0
    · rw [List.filter_cons_of_neg (by simpa using h), ih, total_cons, h, Nat.zero_add]
    · rw [List.filter_cons_of_pos (by simpa using h), total_cons, total_cons, ih]

end History

/-! ## The ledger -/

/-- The store holds what the history leaves unspent, and its pending records can
all still be committed. -/
structure Ledger (sdk : SDK Hash) (s : Store Hash) (imported : List UTXO)
    (committed : List (PendingBroadcast Hash)) : Prop where
  stored : ∀ u, u ∈ s.loadAll ↔ Unspent imported committed u
  imported_inj : (imported.map sdk.outpoint).Nodup
  committed_built : ∀ p ∈ committed, ∃ u raw, Built sdk p u raw ∧ u ∈ known imported committed
  pending_txID : ∀ p ∈ s.loadPending, p.txID ≠ []
  pending_built : ∀ p ∈ s.loadPending, ∃ u raw, Built sdk p u raw ∧ u ∈ s.loadAll
  pending_inj : ∀ p ∈ s.loadPending, ∀ q ∈ s.loadPending, p.spent = q.spent → p = q
  balance : total s.loadAll + totalSpent committed = total imported + totalCreated committed

namespace Ledger

variable {sdk : SDK Hash} {s : Store Hash} {imported : List UTXO}
  {committed : List (PendingBroadcast Hash)} {p : PendingBroadcast Hash} {u v : UTXO}
  {raw : RawTx Hash}

theorem known_of_stored (h : Ledger sdk s imported committed) (hu : u ∈ s.loadAll) :
    u ∈ known imported committed := ((h.stored u).1 hu).known

/-- An imported output and a created one never share an outpoint. -/
theorem outpoint_ne_of_fresh (hf : Fresh sdk imported committed) (hu : u ∈ imported)
    (hp : p ∈ committed) {w : UTXO} (hb : Built sdk p w raw) (hv : v ∈ p.created) :
    sdk.outpoint u ≠ sdk.outpoint v := by
  intro he
  have hpar := outpoint_parse he
  rw [hb.created] at hv
  rw [(mem_createdBy.1 hv).1] at hpar
  exact hf u hu p hp hpar

/-- **Known outputs are determined by their outpoint.** -/
theorem known_inj (h : Ledger sdk s imported committed) (hinj : Function.Injective sdk.txHash)
    (hf : Fresh sdk imported committed) (hu : u ∈ known imported committed)
    (hv : v ∈ known imported committed) (he : sdk.outpoint u = sdk.outpoint v) : u = v := by
  rcases mem_known.1 hu with hu | ⟨p, hp, hu⟩ <;> rcases mem_known.1 hv with hv | ⟨q, hq, hv⟩
  · exact List.inj_on_of_nodup_map h.imported_inj hu hv he
  · obtain ⟨w, raw, hb, -⟩ := h.committed_built q hq
    exact absurd he (outpoint_ne_of_fresh hf hu hq hb hv)
  · obtain ⟨w, raw, hb, -⟩ := h.committed_built p hp
    exact absurd he.symm (outpoint_ne_of_fresh hf hv hp hb hu)
  · obtain ⟨w, raw, hb, -⟩ := h.committed_built p hp
    obtain ⟨w', raw', hb', -⟩ := h.committed_built q hq
    exact (hb.created_inj hinj hb' hu hv he).1

/-- **The outputs of a transaction that spends a stored UTXO are new**: a committed
transaction with the same outputs would have spent that UTXO. -/
theorem created_new (h : Ledger sdk s imported committed) (hinj : Function.Injective sdk.txHash)
    (hf : Fresh sdk imported (committed ++ [p])) (hb : Built sdk p u raw) (hu : u ∈ s.loadAll)
    {c x : UTXO} (hc : c ∈ p.created) (hx : x ∈ known imported committed) :
    sdk.outpoint x ≠ sdk.outpoint c := by
  intro he
  rcases mem_known.1 hx with hx | ⟨q, hq, hx⟩
  · exact outpoint_ne_of_fresh hf hx (List.mem_append_right _ (List.mem_singleton_self p)) hb hc he
  · obtain ⟨w, raw', hb', hw⟩ := h.committed_built q hq
    obtain ⟨-, rfl⟩ := hb'.created_inj hinj hb hx hc he
    have hwu : w = u := h.known_inj hinj hf.of_concat hw (h.known_of_stored hu)
      (hb'.spends.outpoint_eq hb.spends)
    apply ((h.stored u).1 hu).2 q hq
    rw [hb'.spent, hwu]
    exact List.mem_singleton_self u

theorem created_keys (hb : Built sdk p u raw) :
    p.created.Pairwise fun c d => c.key ≠ d.key := by
  refine (List.nodup_iff_pairwise_ne.1 hb.created_nodup).imp_of_mem ?_
  intro c d hc hd hne hk
  rw [hb.created] at hc hd
  exact hne (createdBy_eq_of_txPos hc hd (key_inj hk).2)

/-- What a commit does to the stored UTXOs. -/
theorem commit_loadAll (h : Ledger sdk s imported committed) (hinj : Function.Injective sdk.txHash)
    (hf : Fresh sdk imported (committed ++ [p])) (hb : Built sdk p u raw) (hu : u ∈ s.loadAll) :
    (u :: (s.commitPending p.txID p.spent p.created).loadAll) ~
      p.created.filter (·.value ≠ 0) ++ s.loadAll := by
  rw [hb.spent]
  apply Store.loadAll_commitPending hu _ (created_keys hb)
  intro c hc x hx hk
  exact h.created_new hinj hf hb hu hc (h.known_of_stored hx) (outpoint_of_key hk)

/-- The stored UTXOs after a commit: the others, and the outputs worth something. -/
theorem mem_commit (h : Ledger sdk s imported committed) (hinj : Function.Injective sdk.txHash)
    (hf : Fresh sdk imported (committed ++ [p])) (hb : Built sdk p u raw) (hu : u ∈ s.loadAll) :
    v ∈ (s.commitPending p.txID p.spent p.created).loadAll ↔
      v ≠ u ∧ ((v ∈ p.created ∧ v.value ≠ 0) ∨ v ∈ s.loadAll) := by
  have hperm := h.commit_loadAll hinj hf hb hu
  have hnodup : (p.created.filter (·.value ≠ 0) ++ s.loadAll).Nodup := by
    refine List.nodup_append.2 ⟨hb.created_nodup.filter _, Table.nodup_values _, ?_⟩
    rintro c hc x hx rfl
    exact h.created_new hinj hf hb hu (List.mem_of_mem_filter hc) (h.known_of_stored hx) rfl
  have hu' := (List.nodup_cons.1 (hperm.nodup_iff.2 hnodup)).1
  have hmem := hperm.mem_iff (a := v)
  simp only [List.mem_cons, List.mem_append, List.mem_filter, decide_eq_true_eq] at hmem
  constructor
  · intro hv
    exact ⟨fun he => hu' (he ▸ hv), hmem.1 (Or.inr hv)⟩
  · rintro ⟨hne, hv⟩
    exact (hmem.2 hv).resolve_left hne

/-- The one record of a store with one UTXO is gone after its commit. -/
theorem commit_single (h : Ledger sdk s imported committed) (h1 : s.loadAll.length = 1)
    (hp : p ∈ s.loadPending) : (s.commitPending p.txID p.spent p.created).loadPending = [] := by
  rw [List.eq_nil_iff_forall_not_mem]
  intro r hr
  -- a second record would spend the same UTXO
  obtain ⟨hne, hrp⟩ := (Store.mem_commitPending_pending (h.pending_txID p hp)).1 hr
  obtain ⟨u, raw, hb, hu⟩ := h.pending_built p hp
  obtain ⟨x, raw', hx, hxs⟩ := h.pending_built r hrp
  have hxu : x = u := by
    obtain ⟨a, ha⟩ := List.length_eq_one_iff.1 h1
    rw [ha, List.mem_singleton] at hxs hu
    rw [hxs, hu]
  have heq : r = p := h.pending_inj r hrp p hp (by rw [hx.spent, hb.spent, hxu])
  exact hne (by rw [heq])

/-! ## The store transactions keep the ledger -/

theorem setStage (h : Ledger sdk s imported committed) (st : Stage) :
    Ledger sdk (s.setStage st) imported committed :=
  ⟨h.stored, h.imported_inj, h.committed_built, h.pending_txID, h.pending_built, h.pending_inj,
    h.balance⟩

theorem clearPending (h : Ledger sdk s imported committed) (txid : Bytes) :
    Ledger sdk (s.clearPending txid) imported committed where
  stored := h.stored
  imported_inj := h.imported_inj
  committed_built := h.committed_built
  pending_txID q hq := h.pending_txID q (Store.mem_clearPending.1 hq).2
  pending_built q hq := h.pending_built q (Store.mem_clearPending.1 hq).2
  pending_inj q hq q' hq' :=
    h.pending_inj q (Store.mem_clearPending.1 hq).2 q' (Store.mem_clearPending.1 hq').2
  balance := h.balance

/-- A record is saved for a stored UTXO whose pending records carry the same txid. -/
theorem savePending (h : Ledger sdk s imported committed) (hb : Built sdk p u raw)
    (hu : u ∈ s.loadAll) (hid : p.txID ≠ [])
    (hown : ∀ q ∈ s.loadPending, q.spent = [u] → q.txID = p.txID) :
    Ledger sdk (s.savePending p) imported committed where
  stored := h.stored
  imported_inj := h.imported_inj
  committed_built := h.committed_built
  pending_txID q hq := by
    rcases Store.mem_savePending.1 hq with rfl | ⟨-, hq⟩
    · exact hid
    · exact h.pending_txID q hq
  pending_built q hq := by
    rcases Store.mem_savePending.1 hq with rfl | ⟨-, hq⟩
    · exact ⟨u, raw, hb, hu⟩
    · exact h.pending_built q hq
  pending_inj q hq q' hq' he := by
    rcases Store.mem_savePending.1 hq with h1 | ⟨h1, hs⟩ <;>
      rcases Store.mem_savePending.1 hq' with h2 | ⟨h2, hs'⟩
    · rw [h1, h2]
    · exact absurd (hown q' hs' (by rw [← he, h1, hb.spent])) h2
    · exact absurd (hown q hs (by rw [he, h2, hb.spent])) h1
    · exact h.pending_inj q hs q' hs' he
  balance := h.balance

/-- **An accepted or replayed transaction is committed.** -/
theorem commit (h : Ledger sdk s imported committed) (hinj : Function.Injective sdk.txHash)
    (hf : Fresh sdk imported (committed ++ [p])) (hb : Built sdk p u raw) (hu : u ∈ s.loadAll)
    (hid : p.txID ≠ []) (hown : ∀ q ∈ s.loadPending, q.spent = [u] → q.txID = p.txID) :
    Ledger sdk (s.commitPending p.txID p.spent p.created) imported (committed ++ [p]) where
  stored v := by
    have hnew : v ∈ p.created → ∀ q ∈ committed, v ∉ q.spent := by
      intro hv q hq hvq
      obtain ⟨w, raw', hb', hw⟩ := h.committed_built q hq
      rw [hb'.spent, List.mem_singleton] at hvq
      exact h.created_new hinj hf hb hu hv hw (by rw [hvq])
    rw [h.mem_commit hinj hf hb hu, unspent_concat hnew, h.stored, hb.spent, List.mem_singleton]
  imported_inj := h.imported_inj
  committed_built q hq := by
    rcases List.mem_append.1 hq with hq | hq
    · obtain ⟨w, raw', hb', hw⟩ := h.committed_built q hq
      exact ⟨w, raw', hb', mem_known_concat.2 (Or.inl hw)⟩
    · rw [List.mem_singleton.1 hq]
      exact ⟨u, raw, hb, mem_known_concat.2 (Or.inl (h.known_of_stored hu))⟩
  pending_txID q hq := h.pending_txID q ((Store.mem_commitPending_pending hid).1 hq).2
  pending_built q hq := by
    obtain ⟨hne, hq⟩ := (Store.mem_commitPending_pending hid).1 hq
    obtain ⟨w, raw', hb', hw⟩ := h.pending_built q hq
    refine ⟨w, raw', hb', (h.mem_commit hinj hf hb hu).2 ⟨?_, Or.inr hw⟩⟩
    rintro rfl
    exact hne (hown q hq hb'.spent)
  pending_inj q hq q' hq' :=
    h.pending_inj q ((Store.mem_commitPending_pending hid).1 hq).2 q'
      ((Store.mem_commitPending_pending hid).1 hq').2
  balance := by
    have hperm := total_perm (h.commit_loadAll hinj hf hb hu)
    rw [total_cons, total_append, total_filter] at hperm
    have hbal := h.balance
    have hspent : total p.spent = u.value := by rw [hb.spent]; rfl
    simp only [totalSpent, totalCreated, List.map_append, List.sum_append, List.map_cons,
      List.map_nil, List.sum_cons, List.sum_nil] at hbal ⊢
    omega

/-- **A new output is imported.** -/
theorem saveUTXO (h : Ledger sdk s imported committed)
    (hnew : ∀ v ∈ known imported committed, sdk.outpoint v ≠ sdk.outpoint u) :
    Ledger sdk (s.saveUTXO u) (imported ++ [u]) committed := by
  have hkey : ∀ x ∈ s.loadAll, x.key ≠ u.key :=
    fun x hx hk => hnew x (h.known_of_stored hx) (outpoint_of_key hk)
  have hspent : ∀ q ∈ committed, u ∉ q.spent := by
    intro q hq hu
    obtain ⟨w, raw, hb, hw⟩ := h.committed_built q hq
    rw [hb.spent, List.mem_singleton] at hu
    exact hnew w hw (by rw [hu])
  have hperm : (s.saveUTXO u).loadAll ~ u :: s.loadAll := Table.values_insert hkey
  exact {
    stored := by
      intro v
      rw [hperm.mem_iff, List.mem_cons, h.stored, Unspent, Unspent, List.mem_append,
        List.mem_singleton]
      constructor
      · rintro (rfl | ⟨hv | hv, hs⟩)
        · exact ⟨Or.inl (Or.inr rfl), hspent⟩
        · exact ⟨Or.inl (Or.inl hv), hs⟩
        · exact ⟨Or.inr hv, hs⟩
      · rintro ⟨(hv | rfl) | hv, hs⟩
        · exact Or.inr ⟨Or.inl hv, hs⟩
        · exact Or.inl rfl
        · exact Or.inr ⟨Or.inr hv, hs⟩
    imported_inj := by
      rw [List.map_append, List.map_cons, List.map_nil]
      refine List.nodup_append.2 ⟨h.imported_inj, List.nodup_singleton _, ?_⟩
      intro a ha b hb
      obtain ⟨v, hv, rfl⟩ := List.mem_map.1 ha
      rw [List.mem_singleton.1 hb]
      exact hnew v (mem_known.2 (Or.inl hv))
    committed_built := by
      intro q hq
      obtain ⟨w, raw, hb, hw⟩ := h.committed_built q hq
      refine ⟨w, raw, hb, ?_⟩
      rcases mem_known.1 hw with hw | hw
      · exact mem_known.2 (Or.inl (List.mem_append_left _ hw))
      · exact mem_known.2 (Or.inr hw)
    pending_txID := h.pending_txID
    pending_built := by
      intro q hq
      obtain ⟨w, raw, hb, hw⟩ := h.pending_built q hq
      exact ⟨w, raw, hb, hperm.mem_iff.2 (List.mem_cons_of_mem _ hw)⟩
    pending_inj := h.pending_inj
    balance := by
      have hbal := h.balance
      rw [total_perm hperm, total_append, total_cons, total_cons]
      show _ = total imported + (u.value + 0) + _
      omega }

end Ledger

end TxGen
