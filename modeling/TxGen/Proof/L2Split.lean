import TxGen.Proof.Funding
import TxGen.Proof.L2

/-!
# The split of the chains over the L2 fanouts

The sizes of the fanouts are an even partition of the chains when the 64-bit sum in
`ceilDiv` does not overflow, and fanouts that are all accepted end at `l2Done` with one
output per chain.
-/

namespace TxGen

open Lib
open scoped List

variable {Hash : Type} {sdk : SDK Hash}

/-! ## The sizes -/

/-- The sizes of the L2 fanouts for `ceilDiv n f` parents: they sum to `n`, each is
between 1 and `f`, and no two differ by more than 1. -/
def EvenSplit (n f : ℤ) : Prop :=
  let parents := ceilDiv n f
  ((List.range parents.toNat).map fun i : ℕ => l2FanoutSizeForParent n parents i).sum = n ∧
    ∀ i < parents.toNat, 1 ≤ l2FanoutSizeForParent n parents i ∧
      l2FanoutSizeForParent n parents i ≤ f ∧
      ∀ j < parents.toNat, l2FanoutSizeForParent n parents i ≤ l2FanoutSizeForParent n parents j + 1

theorem splitSize_even (n k i j : ℕ) : splitSize n k i ≤ splitSize n k j + 1 := by
  unfold splitSize
  split_ifs <;> omega

/-- Beyond 64 bits `ceilDiv` is not positive. -/
theorem ceilDiv_overflow {n f : ℤ} (hf : 0 < f) (hn' : n < 2 ^ 63) (hf' : f < 2 ^ 63)
    (h : 2 ^ 63 ≤ n + f - 1) : ceilDiv n f ≤ 0 := by
  unfold ceilDiv
  rw [if_neg (by omega)]
  -- the sum wraps around once
  have hneg : i64 (n + f - 1) < 0 := by
    unfold i64
    rw [Int.bmod_def]
    have hmod : (n + f - 1) % ((2 ^ 64 : ℕ) : ℤ) = n + f - 1 :=
      Int.emod_eq_of_lt (by omega) (by push_cast; omega)
    rw [hmod]
    split_ifs with hlt
    · push_cast at hlt
      omega
    · push_cast
      omega
  have := Int.tdiv_nonneg (a := -i64 (n + f - 1)) (b := f) (by omega) (by omega)
  rw [Int.neg_tdiv] at this
  omega

theorem evenSplit_iff {n f : ℤ} (hn : 0 < n) (hf : 0 < f) (hn' : n < 2 ^ 63) (hf' : f < 2 ^ 63) :
    EvenSplit n f ↔ n + f - 1 < 2 ^ 63 := by
  unfold EvenSplit
  constructor
  · rintro ⟨hsum, -⟩
    by_contra h
    -- no parents, so nothing to sum
    have hnone : (ceilDiv n f).toNat = 0 :=
      Int.toNat_of_nonpos (ceilDiv_overflow hf hn' hf' (by omega))
    rw [hnone] at hsum
    simp at hsum
    omega
  · intro h
    obtain ⟨n, rfl⟩ := Int.eq_ofNat_of_zero_le hn.le
    obtain ⟨f, rfl⟩ := Int.eq_ofNat_of_zero_le hf.le
    have hn0 : 0 < n := by omega
    have hf0 : 0 < f := by omega
    have hdiv := Funding.ceilDiv_eq_divCeil hn0 hf0 (by omega)
    simp only [hdiv, Int.toNat_natCast]
    have hk := Funding.divCeil_pos hn0 hf0
    have hle := Funding.divCeil_le hn0 hf0
    refine ⟨sum_l2FanoutSizeForParent hn0 hk, fun i hi => ?_⟩
    have hpos := splitSize_pos hk hle i
    have hmax := Funding.splitSize_le hn0 hf0 i
    rw [l2FanoutSizeForParent_eq hn0 hi]
    refine ⟨by omega, by omega, fun j hj => ?_⟩
    rw [l2FanoutSizeForParent_eq hn0 hj]
    have := splitSize_even n (Funding.divCeil n f) i j
    omega

/-! ## The outputs -/

/-- The outputs of the fanouts have distinct outpoints. -/
theorem L2Run.nodup_outputs {m : Mode Hash} {n : ℤ} {parents : List UTXO} {q : Proc Hash}
    (h : L2Run sdk m n parents q) (hinj : Function.Injective sdk.txHash)
    (hdist : (parents.map sdk.outpoint).Nodup) :
    ((q.tasks.flatMap Task.outputs).map sdk.outpoint).Nodup := by
  rw [List.map_flatMap, List.nodup_flatMap]
  constructor
  · intro t ht
    by_cases ha : t.accepted = true
    · obtain ⟨p, hb, hp⟩ := (h.ran t ht).outputs ha
      obtain ⟨raw, hraw⟩ := Task.build_ok hb
      rw [hp]
      exact hraw.created_nodup.map_on fun c hc d hd he =>
        (hraw.created_inj hinj hraw hc hd he).1
    · rw [Task.outputs_of_not_accepted (by simpa using ha)]
      exact List.nodup_nil
  · rw [List.pairwise_iff_getElem]
    intro i j hi hj hij o hoi hoj
    obtain ⟨c, hc, rfl⟩ := List.mem_map.1 hoi
    obtain ⟨d, hd, he⟩ := List.mem_map.1 hoj
    obtain ⟨p, hb, hp⟩ :=
      (h.ran _ (List.getElem_mem hi)).outputs (Task.accepted_of_mem_outputs hc)
    obtain ⟨p', hb', hp'⟩ :=
      (h.ran _ (List.getElem_mem hj)).outputs (Task.accepted_of_mem_outputs hd)
    exact (h.build_ne hinj hdist (List.getElem?_eq_getElem hi) (List.getElem?_eq_getElem hj)
      (by omega) hb hb').2 c (hp ▸ hc) d (hp' ▸ hd) he.symm

/-- **The L2 split.** The sizes for `ceilDiv n f` parents are an even partition of the
`n` chains exactly when the 64-bit sum in `ceilDiv` does not overflow. For any number
of parents up to that of the chains, fanouts that are all accepted produce one output
per chain, with distinct outpoints, and `bootstrapL2` ends at `l2Done`. -/
theorem l2_split_exact (hinj : Function.Injective sdk.txHash) :
    (∀ n f : ℤ, 0 < n → 0 < f → n < 2 ^ 63 → f < 2 ^ 63 →
      (EvenSplit n f ↔ n + f - 1 < 2 ^ 63)) ∧
    ∀ (w : World Hash) (q : Proc Hash), w.proc = some q → q.main = .l2Start → q.queue ≠ [] →
      (q.queue.length : ℤ) ≤ q.numChains → (q.queue.map sdk.outpoint).Nodup →
      ∀ (ok : Bool) (es : List (Event Hash)), (∀ e ∈ es, SameLife e) →
      ∀ q', ((w.step sdk (.main ok)).run sdk es).proc = some q' → q'.main = .l2 →
        (∀ t ∈ q'.tasks, t.accepted = true) →
      ∀ ok', ∃ q'', (((w.step sdk (.main ok)).run sdk es).step sdk (.main ok')).proc = some q'' ∧
        q''.main = .chains ∧ q''.stage = .l2Done ∧ (q''.queue.length : ℤ) = q.numChains ∧
        (q''.queue.map sdk.outpoint).Nodup ∧ ∀ u ∈ q''.queue, ∃ t ∈ q'.tasks, u ∈ t.outputs := by
  refine ⟨fun n f hn hf hn' hf' => evenSplit_iff hn hf hn' hf', ?_⟩
  intro w q hq hm hne hle hdist ok es hes q' hq' hm' hacc ok'
  obtain ⟨hR, -⟩ := l2_run hinj hq hm hne hle ok hes hq' hm'
  have hperm := Queue.drain_perm q.queue
  have hdist' : ((Queue.drain q.queue).map sdk.outpoint).Nodup :=
    (hperm.map sdk.outpoint).nodup_iff.2 hdist
  have hne' := Queue.drain_ne_nil hne
  have hlen := hR.length_outputs hne' (by rw [hperm.length_eq]; exact hle) hacc
  have hend : ∀ t ∈ q'.tasks, t.ended = true := by
    intro t ht
    have ha := hacc t ht
    unfold Task.accepted at ha
    unfold Task.ended
    split at ha <;> simp_all
  have hqueue : Queue.pushAll q'.queue (q'.tasks.flatMap Task.outputs) ~
      q'.tasks.flatMap Task.outputs := by
    have hpush := Queue.pushAll_perm [] (q'.tasks.flatMap Task.outputs)
    rw [hR.queue_nil hacc]
    rwa [List.append_nil] at hpush
  rw [step_endL2 hq' hm' hend, if_pos ⟨List.all_eq_true.2 hacc, by rw [hR.numChains]; exact hlen⟩]
  refine ⟨_, rfl, rfl, rfl, ?_, ?_, ?_⟩
  · rw [hqueue.length_eq]
    exact hlen
  · exact (hqueue.map sdk.outpoint).nodup_iff.2 (hR.nodup_outputs hinj hdist')
  · intro u hu
    exact List.mem_flatMap.1 (hqueue.mem_iff.1 hu)

/-- Ten chains over three parents, and three fanouts that are all accepted. -/
theorem l2_split_three :
    EvenSplit 10 4 ∧
    ∃ q, (((Concrete.threeParents.step Concrete.plainSDK (.main true)).run Concrete.plainSDK
        (Concrete.succeed 2 ++ Concrete.succeed 0 ++ Concrete.succeed 1)).step Concrete.plainSDK
          (.main true)).proc = some q ∧
      q.main = .chains ∧ q.stage = .l2Done ∧ (q.queue.length : ℤ) = 5 ∧
      (q.queue.map Concrete.plainSDK.outpoint).Nodup := by
  obtain ⟨hsplit, hrun⟩ := @l2_split_exact Bytes Concrete.plainSDK Concrete.encTx_injective
  refine ⟨(hsplit 10 4 (by decide) (by decide) (by decide) (by decide)).2 (by decide), ?_⟩
  obtain ⟨q, hq, hpair⟩ := Option.map_eq_some_iff.1 Concrete.threeParents_start
  simp only [Prod.mk.injEq] at hpair
  obtain ⟨hm, hqueue, hn, -⟩ := hpair
  have hafter : ((Concrete.threeParents.step Concrete.plainSDK (.main true)).run Concrete.plainSDK
      (Concrete.succeed 2 ++ Concrete.succeed 0 ++ Concrete.succeed 1)).proc.map
        (fun q => (q.main, q.tasks.all Task.accepted)) = some (.l2, true) := by
    decide +kernel
  obtain ⟨q', hq', hpair⟩ := Option.map_eq_some_iff.1 hafter
  obtain ⟨hm', hacc⟩ := Prod.mk.inj hpair
  obtain ⟨q'', hq'', hmain, hstage, hlen, hnodup, -⟩ := hrun _ q hq hm (by rw [hqueue]; decide)
    (by rw [hqueue, hn]; decide) (by rw [hqueue]; decide) true _ (by decide) q' hq' hm'
    (List.all_eq_true.1 hacc) true
  exact ⟨q'', hq'', hmain, hstage, hn ▸ hlen, hnodup⟩

/-- The sum in `ceilDiv` overflows: no parents for more chains than any. -/
theorem not_evenSplit_overflow : ¬EvenSplit (2 ^ 63 - 1) 2 := by
  rw [evenSplit_iff (by norm_num) (by norm_num) (by norm_num) (by norm_num)]
  norm_num

end TxGen
