import TxGen.Proof.Bootstrap
import TxGen.Proof.Stages

/-!
# Fanouts built again after a restart

The size of an L2 fanout depends on the place of its parent in the drained queue: in
the first lifetime the queue was filled with the L1 outputs in the order of the
transaction, after a restart in the order of the store's keys. Whenever the two
orders give the same parents the larger size, and no output of an L2 fanout is taken
for a parent, a fanout that is built again is the transaction sent before.
-/

namespace TxGen

open Lib
open scoped List

variable {Hash : Type} {sdk : SDK Hash}

/-! ## The size of an L2 fanout -/

/-- The size of the fanout of `u` when the parents `us` are restored from the store. -/
def orderedSize (n : ℕ) (us : List UTXO) (u : UTXO) : ℕ :=
  n / us.length + if u ∈ (Queue.drain (Queue.restore us)).take (n % us.length) then 1 else 0

/-- In a list without repetition the first elements are those at the first places. -/
theorem getElem_mem_take {l : List UTXO} (h : l.Nodup) {i r : ℕ} (hi : i < l.length) :
    l[i] ∈ l.take r ↔ i < r := by
  rw [List.mem_take_iff_getElem]
  constructor
  · rintro ⟨j, hj, hjd⟩
    have := (List.getElem_inj h).1 hjd
    omega
  · intro hr
    exact ⟨i, by omega, rfl⟩

/-- When `bootstrapL2` starts, no output of an L2 fanout is taken for a parent, and
the parents drained first are those that a queue restored from the store has first. -/
def FanoutOrder (w : World Hash) : Prop :=
  ∀ q, w.proc = some q → q.main = .l2Start → (∀ u ∈ q.queue, ¬L2Output w u) ∧
    ∀ u ∈ q.queue, u ∈ (Queue.drain q.queue).take (q.numChains.toNat % q.queue.length) ↔
      u ∈ (Queue.drain (Queue.restore w.store.loadAll)).take (q.numChains.toNat % q.queue.length)

instance [DecidableEq Hash] (w : World Hash) : Decidable (FanoutOrder w) :=
  inferInstanceAs (Decidable (∀ q ∈ w.proc, q.main = .l2Start → (∀ u ∈ q.queue, ¬L2Output w u) ∧
    ∀ u ∈ q.queue, (u ∈ (Queue.drain q.queue).take (q.numChains.toNat % q.queue.length) ↔
      u ∈ (Queue.drain (Queue.restore w.store.loadAll)).take
        (q.numChains.toNat % q.queue.length))))

/-- Then the place of a parent gives the size it has in the restored order. -/
theorem l2FanoutSize_ordered {queue us : List UTXO} {n : ℤ} (hn : 0 < n) (hq : queue ~ us)
    (hnodup : us.Nodup)
    (hord : ∀ u ∈ queue, u ∈ (Queue.drain queue).take (n.toNat % queue.length) ↔
      u ∈ (Queue.drain (Queue.restore us)).take (n.toNat % queue.length))
    {i : ℕ} (hi : i < (Queue.drain queue).length) :
    l2FanoutSizeForParent n (Queue.drain queue).length i =
      orderedSize n.toNat us (Queue.drain queue)[i] := by
  have hlen : (Queue.drain queue).length = queue.length := (Queue.drain_perm queue).length_eq
  have hnd : (Queue.drain queue).Nodup := ((Queue.drain_perm queue).trans hq).nodup_iff.2 hnodup
  have hin := (Queue.drain_perm queue).mem_iff.1 (List.getElem_mem hi)
  have hmem := (hord _ hin).symm.trans (getElem_mem_take hnd hi)
  have heq : n = (n.toNat : ℤ) := by omega
  rw [heq, l2FanoutSizeForParent_eq (by omega) hi]
  unfold splitSize orderedSize
  rw [hlen, ← hq.length_eq]
  simp only [Int.toNat_natCast, hmem]

/-! ## The invariant -/

/-- The UTXOs that L1 fanouts were sent for are spent. -/
def L1Gone (w : World Hash) : Prop :=
  ∀ a ∈ w.sent, a.2.stage = some .l1Done → ∀ u ∈ a.2.spent, u ∉ w.store.loadAll

/-- No L2 fanout has been committed. -/
def NoL2 (w : World Hash) : Prop := ∀ p ∈ w.committed, p.stage ≠ some .l2Partial

/-- The point of the main goroutine and the L1 fanouts sent. -/
def RefanPoint (o : Options Hash) (w : World Hash) (q : Proc Hash) : Prop :=
  match q.main with
  | .persist rest => ∀ u ∈ rest, u ∈ w.store.loadAll
  | .replayStage .. | .waitForSeed | .pushSeed _ | .l2Start | .markDone => L1Gone w
  | .l1 => ∀ t ∈ q.tasks, t.n = o.l1Count ∧ (t.accepted = true → L1Gone w)
  | _ => True

/-- The sizes of the L2 fanouts sent and running are those of the parents `us`, which
are the stored UTXOs until an L2 fanout is committed. -/
structure L2Plan (sdk : SDK Hash) (o : Options Hash) (us : List UTXO) (w : World Hash) : Prop where
  sent : ∀ a ∈ w.sent, a.2.stage = some .l2Partial → ∃ u ∈ known w.imported w.committed,
    fanoutPending sdk u (orderedSize o.config.numChains.toNat us u) o.mode .l2Partial = .ok a.2
  tasks : ∀ q, w.proc = some q → q.main = .l2 →
    ∀ t ∈ q.tasks, t.n = orderedSize o.config.numChains.toNat us t.utxo
  root : w.store.stageOr = .l2Partial → NoL2 w → w.store.loadAll = us

/-- The invariant of runs with fixed options. -/
structure RefanInv (sdk : SDK Hash) (o : Options Hash) (w : World Hash) : Prop where
  stages : StageInv sdk w
  params : ∀ q, w.proc = some q → FromOptions o q
  point : ∀ q, w.proc = some q → RefanPoint o w q
  sentL1 : ∀ a ∈ w.sent, a.2.stage = some .l1Done → ∃ u ∈ known w.imported w.committed,
    fanoutPending sdk u o.l1Count o.mode .l1Done = .ok a.2 ∧
      (u ∈ w.store.loadAll → w.store.loadAll.length = 1 ∧ w.store.stageOr = .none)
  early : w.store.stageOr = .none ∨ w.store.stageOr = .l1Done →
    NoL2 w ∧ ∀ a ∈ w.sent, a.2.stage ≠ some .l2Partial
  pending : ∀ p ∈ w.store.loadPending, p.stage = some .l2Partial → ∃ v ∈ p.created, v.value ≠ 0
  stored : w.store.stageOr = .l2Partial → NoL2 w ∨ ∃ v ∈ w.store.loadAll, L2Output w v
  plan : ∃ us, L2Plan sdk o us w

/-- The step from `w` to `w'` sends, commits and imports nothing. -/
structure Calm (w w' : World Hash) : Prop where
  sent : w'.sent = w.sent
  committed : w'.committed = w.committed
  imported : w'.imported = w.imported
  loadAll : w'.store.loadAll = w.store.loadAll

section Steps

variable {o : Options Hash} {w w' : World Hash} {q : Proc Hash}

theorem Calm.l1Gone (hc : Calm w w') (h : L1Gone w) : L1Gone w' := by
  unfold L1Gone
  rw [hc.sent, hc.loadAll]
  exact h

theorem Calm.noL2 (hc : Calm w w') : NoL2 w' ↔ NoL2 w := by
  unfold NoL2
  rw [hc.committed]

theorem Calm.l2Output (hc : Calm w w') {u : UTXO} : L2Output w' u ↔ L2Output w u := by
  unfold L2Output
  rw [hc.committed]

theorem L2Plan.calm {us : List UTXO} (h : L2Plan sdk o us w) (hc : Calm w w')
    (hor : w'.store.stageOr = w.store.stageOr ∨ w'.store.stageOr ≠ .l2Partial)
    (htasks : ∀ q', w'.proc = some q' → q'.main = .l2 → ∃ q, w.proc = some q ∧ q.main = .l2 ∧
      ∀ t' ∈ q'.tasks, ∃ t ∈ q.tasks, t'.n = t.n ∧ t'.utxo = t.utxo) : L2Plan sdk o us w' where
  sent := by
    rw [hc.sent, hc.committed, hc.imported]
    exact h.sent
  tasks q' hq' hm' t' ht' := by
    obtain ⟨q, hq, hm, hall⟩ := htasks q' hq' hm'
    obtain ⟨t, ht, hn, hu⟩ := hall t' ht'
    rw [hn, hu]
    exact h.tasks q hq hm t ht
  root hst hno := by
    rw [hc.loadAll]
    rcases hor with hor | hne
    · exact h.root (hor ▸ hst) (hc.noL2.1 hno)
    · exact absurd hst hne

/-- A calm step at the same stage. -/
theorem RefanInv.calm (h : RefanInv sdk o w) (hS' : StageInv sdk w') (hc : Calm w w')
    (hor : w'.store.stageOr = w.store.stageOr)
    (hpend : ∀ p ∈ w'.store.loadPending, p ∈ w.store.loadPending ∨
      (p.stage = some .l2Partial → ∃ v ∈ p.created, v.value ≠ 0))
    (hpar : ∀ q', w'.proc = some q' → FromOptions o q')
    (hpt : ∀ q', w'.proc = some q' → RefanPoint o w' q')
    (htasks : ∀ q', w'.proc = some q' → q'.main = .l2 → ∃ q, w.proc = some q ∧ q.main = .l2 ∧
      ∀ t' ∈ q'.tasks, ∃ t ∈ q.tasks, t'.n = t.n ∧ t'.utxo = t.utxo) : RefanInv sdk o w' where
  stages := hS'
  params := hpar
  point := hpt
  sentL1 := by
    rw [hc.sent, hc.committed, hc.imported, hc.loadAll, hor]
    exact h.sentL1
  early := by
    rw [hor, hc.noL2, hc.sent]
    exact h.early
  pending p hp := by
    rcases hpend p hp with hp | hp
    · exact h.pending p hp
    · exact hp
  stored := by
    rw [hor, hc.noL2, hc.loadAll]
    intro hst
    rcases h.stored hst with h | ⟨v, hv, hout⟩
    · exact Or.inl h
    · exact Or.inr ⟨v, hv, hc.l2Output.2 hout⟩
  plan := by
    obtain ⟨us, hus⟩ := h.plan
    exact ⟨us, hus.calm hc (Or.inl hor) htasks⟩

/-- The L1 fanouts sent, when what they spend is gone. -/
theorem RefanInv.sentL1_gone (h : RefanInv sdk o w) (hc : Calm w w') (hgone : L1Gone w) :
    ∀ a ∈ w'.sent, a.2.stage = some .l1Done → ∃ u ∈ known w'.imported w'.committed,
      fanoutPending sdk u o.l1Count o.mode .l1Done = .ok a.2 ∧ (u ∈ w'.store.loadAll →
        w'.store.loadAll.length = 1 ∧ w'.store.stageOr = .none) := by
  intro a ha hs
  rw [hc.sent] at ha
  rw [hc.committed, hc.imported, hc.loadAll]
  obtain ⟨u, hu, hb, -⟩ := h.sentL1 a ha hs
  obtain ⟨raw, hraw⟩ := (fanoutPending_ok hb).1
  refine ⟨u, hu, hb, fun hin => absurd hin (hgone a ha hs u ?_)⟩
  rw [hraw.spent]
  exact List.mem_singleton_self u

/-- A write of a stage other than `l2Partial`, when the L1 fanouts sent are gone. -/
theorem RefanInv.advance (h : RefanInv sdk o w) (hS' : StageInv sdk w') (hc : Calm w w')
    (hgone : L1Gone w) (hst : w'.store.stageOr = .l2Done ∨
      (w'.store.stageOr = .l1Done ∧ w.store.stageOr = .none))
    (hpend : ∀ p ∈ w'.store.loadPending, p ∈ w.store.loadPending)
    (hpar : ∀ q', w'.proc = some q' → FromOptions o q')
    (hpt : ∀ q', w'.proc = some q' → RefanPoint o w' q')
    (hmain : ∀ q', w'.proc = some q' → q'.main ≠ .l2) : RefanInv sdk o w' where
  stages := hS'
  params := hpar
  point := hpt
  sentL1 := h.sentL1_gone hc hgone
  early hor := by
    rw [hc.noL2, hc.sent]
    rcases hst with hst | ⟨-, hst⟩
    · rw [hst] at hor
      rcases hor with hor | hor <;> cases hor
    · exact h.early (Or.inl hst)
  pending p hp := h.pending p (hpend p hp)
  stored hor := by
    rcases hst with hst | ⟨hst, -⟩ <;> rw [hst] at hor <;> cases hor
  plan := by
    obtain ⟨us, hus⟩ := h.plan
    refine ⟨us, hus.calm hc (Or.inr ?_) fun q' hq' hm => absurd hm (hmain q' hq')⟩
    rcases hst with hst | ⟨hst, -⟩ <;> rw [hst] <;> simp

/-- After a commit no UTXO that an L1 fanout was sent for is stored. -/
theorem RefanInv.l1Gone_commit (h : RefanInv sdk o w) (hinj : Function.Injective sdk.txHash)
    {p : PendingBroadcast Hash} {u : UTXO} {raw : RawTx Hash}
    (hf : Fresh sdk w.imported (w.committed ++ [p])) (hb : Built sdk p u raw)
    (hu : u ∈ w.store.loadAll) : L1Gone (w.commit p) := by
  have hL := h.stages.inv.ledger
  intro a ha hs v hv hin
  obtain ⟨x, hx, hbx, hone⟩ := h.sentL1 a ha hs
  obtain ⟨raw', hraw'⟩ := (fanoutPending_ok hbx).1
  rw [hraw'.spent, List.mem_singleton] at hv
  rw [hv] at hin
  rcases (hL.mem_commit hinj hf hb hu).1 hin with ⟨hne, ⟨hc, -⟩ | hin⟩
  · exact hL.created_new hinj hf hb hu hc hx rfl
  · -- the UTXO was the only one stored, and it is the one spent
    obtain ⟨y, hy⟩ := List.length_eq_one_iff.1 (hone hin).1
    rw [hy, List.mem_singleton] at hin hu
    exact hne (hin.trans hu.symm)

/-- A commit: of the L1 fanout at stage `none`, of an L2 fanout at `l2Partial`. -/
theorem RefanInv.commit (h : RefanInv sdk o w) (hinj : Function.Injective sdk.txHash)
    {p : PendingBroadcast Hash} {u : UTXO} {raw : RawTx Hash}
    (hf : Fresh sdk w.imported (w.committed ++ [p])) (hb : Built sdk p u raw)
    (hu : u ∈ w.store.loadAll) (hid : p.txID ≠ []) (hl1 : w.store.stageOr ≠ .l1Done)
    (hnone : w.store.stageOr = .none → p.stage ≠ some .l2Partial)
    (hl2 : w.store.stageOr = .l2Partial → p.stage = some .l2Partial ∧ ∃ v ∈ p.created, v.value ≠ 0)
    (hc : Calm (w.commit p) w') (hstore : w'.store = (w.commit p).store) (hS' : StageInv sdk w')
    (hpar : ∀ q', w'.proc = some q' → FromOptions o q')
    (hpt : ∀ q', w'.proc = some q' → RefanPoint o w' q')
    (htasks : ∀ q', w'.proc = some q' → q'.main = .l2 → ∃ q, w.proc = some q ∧ q.main = .l2 ∧
      ∀ t' ∈ q'.tasks, ∃ t ∈ q.tasks, t'.n = t.n ∧ t'.utxo = t.utxo) : RefanInv sdk o w' := by
  have hL := h.stages.inv.ledger
  have hgone := hc.l1Gone (h.l1Gone_commit hinj hf hb hu)
  have hor : w'.store.stageOr = w.store.stageOr := by rw [hstore]; rfl
  have hsent : w'.sent = w.sent := hc.sent
  have hcom : w'.committed = w.committed ++ [p] := hc.committed
  have hknown : ∀ x ∈ known w.imported w.committed, x ∈ known w'.imported w'.committed := by
    intro x hx
    rw [hc.imported, hc.committed]
    exact mem_known_concat.2 (Or.inl hx)
  exact {
    stages := hS'
    params := hpar
    point := hpt
    sentL1 := by
      intro a ha hs
      have ha' : a ∈ w.sent := hsent ▸ ha
      obtain ⟨x, hx, hbx, -⟩ := h.sentL1 a ha' hs
      obtain ⟨raw', hraw'⟩ := (fanoutPending_ok hbx).1
      refine ⟨x, hknown x hx, hbx, fun hin => absurd hin (hgone a ha hs x ?_)⟩
      rw [hraw'.spent]
      exact List.mem_singleton_self x
    early := by
      intro hst
      rw [hor] at hst
      have hst' := hst.resolve_right hl1
      obtain ⟨hno, hns⟩ := h.early hst
      refine ⟨fun r hr => ?_, by rw [hsent]; exact hns⟩
      rw [hcom] at hr
      rcases List.mem_append.1 hr with hr | hr
      · exact hno r hr
      · rw [List.mem_singleton.1 hr]
        exact hnone hst'
    pending := by
      intro r hr
      rw [hstore] at hr
      exact h.pending r ((Store.mem_commitPending_pending hid).1 hr).2
    stored := by
      intro hst
      rw [hor] at hst
      obtain ⟨hps, v, hv, hnz⟩ := hl2 hst
      refine Or.inr ⟨v, ?_, p, by rw [hcom]; simp, hps, hv⟩
      rw [hstore]
      refine (hL.mem_commit hinj hf hb hu).2 ⟨fun hvu => ?_, Or.inl ⟨hv, hnz⟩⟩
      exact hL.created_new hinj hf hb hu hv (hL.known_of_stored hu) (by rw [hvu])
    plan := by
      obtain ⟨us, hus⟩ := h.plan
      refine ⟨us, ⟨fun a ha hs => ?_, fun q' hq' hm' t' ht' => ?_, fun hst hno => ?_⟩⟩
      · obtain ⟨x, hx, hbx⟩ := hus.sent a (hsent ▸ ha) hs
        exact ⟨x, hknown x hx, hbx⟩
      · obtain ⟨q, hq, hm, hall⟩ := htasks q' hq' hm'
        obtain ⟨t, ht, hn, hut⟩ := hall t' ht'
        rw [hn, hut]
        exact hus.tasks q hq hm t ht
      · rw [hor] at hst
        exact absurd (hl2 hst).1 (hno p (by rw [hcom]; simp)) }

/-- When `bootstrapL2` starts, no L2 fanout is committed, and those sent have the
sizes of the stored UTXOs. -/
theorem RefanInv.l2Sent (h : RefanInv sdk o w) (hq : w.proc = some q) (hm : q.main = .l2Start)
    (hord : FanoutOrder w) : NoL2 w ∧ ∀ a ∈ w.sent, a.2.stage = some .l2Partial →
      ∃ u ∈ known w.imported w.committed, fanoutPending sdk u
        (orderedSize o.config.numChains.toNat w.store.loadAll u) o.mode .l2Partial = .ok a.2 := by
  have hp := h.stages.inv.proc q hq
  have hpt := h.stages.point q hq
  unfold ProcOK at hp
  unfold StagePoint at hpt
  rw [hm] at hp hpt
  cases hst : w.store.stageOr with
  | none | l1Done =>
    obtain ⟨hno, hns⟩ := h.early (by rw [hst]; simp)
    exact ⟨hno, fun a ha hs => absurd hs (hns a ha)⟩
  | l2Partial =>
    have hno : NoL2 w := by
      rcases h.stored hst with hno | ⟨v, hv, hout⟩
      · exact hno
      · exact absurd hout ((hord q hq hm).1 v (hp.1.queue.mem_iff.2 hv))
    obtain ⟨us, hus⟩ := h.plan
    rw [hus.root hst hno]
    exact ⟨hno, hus.sent⟩
  | l2Done => exact absurd hst hpt
  | unknown => exact absurd hst h.stages.staged.ne_unknown

/-- `bootstrapL2` writes the stage and starts its fanouts. -/
theorem RefanInv.l2Begin (h : RefanInv sdk o w) (hq : w.proc = some q) (hm : q.main = .l2Start)
    (hord : FanoutOrder w) (hS' : StageInv sdk w') (hc : Calm w w')
    (hst : w'.store.stageOr = .l2Partial)
    (hpend : ∀ p ∈ w'.store.loadPending, p ∈ w.store.loadPending)
    (hpar : ∀ q', w'.proc = some q' → FromOptions o q')
    (hpt : ∀ q', w'.proc = some q' → RefanPoint o w' q')
    (htasks : ∀ q', w'.proc = some q' → q'.main = .l2 → ∀ t ∈ q'.tasks,
      t.n = orderedSize o.config.numChains.toNat w.store.loadAll t.utxo) : RefanInv sdk o w' := by
  obtain ⟨hno, hsent⟩ := h.l2Sent hq hm hord
  have hgone : L1Gone w := by
    have hp := h.point q hq
    unfold RefanPoint at hp
    rw [hm] at hp
    exact hp
  exact {
    stages := hS'
    params := hpar
    point := hpt
    sentL1 := h.sentL1_gone hc hgone
    early := by
      intro hor
      rw [hst] at hor
      rcases hor with hor | hor <;> cases hor
    pending := fun p hp => h.pending p (hpend p hp)
    stored := fun _ => Or.inl (hc.noL2.2 hno)
    plan := by
      refine ⟨w.store.loadAll, ⟨?_, htasks, fun _ _ => hc.loadAll⟩⟩
      rw [hc.sent, hc.committed, hc.imported]
      exact hsent }

/-- The new sizes of the L2 fanouts. -/
theorem beginL2_sizes (hq : Idle w.store q) (hpar : FromOptions o q)
    (hord : ∀ u ∈ q.queue, u ∈ (Queue.drain q.queue).take (q.numChains.toNat % q.queue.length) ↔
      u ∈ (Queue.drain (Queue.restore w.store.loadAll)).take (q.numChains.toNat % q.queue.length))
    {t : Task Hash} (ht : t ∈ (Queue.drain q.queue).mapIdx fun i parent =>
      (⟨.l2, parent, l2FanoutSizeForParent q.numChains (Queue.drain q.queue).length i, 1, .wait⟩ :
        Task Hash)) :
    t.n = orderedSize o.config.numChains.toNat w.store.loadAll t.utxo := by
  obtain ⟨i, hi, rfl⟩ := List.mem_mapIdx.1 ht
  rw [← hpar.numChains]
  have hn : 0 < q.numChains := by
    rw [hpar.numChains]
    exact o.numChains_pos
  exact l2FanoutSize_ordered hn hq.queue (Table.nodup_values _) hord hi

theorem RefanInv.l1Gone (h : RefanInv sdk o w)
    (hne : w.store.loadAll.length ≠ 1 ∨ w.store.stageOr ≠ .none) : L1Gone w := by
  intro a ha hs v hv hin
  obtain ⟨x, -, hb, hone⟩ := h.sentL1 a ha hs
  obtain ⟨raw, hraw⟩ := (fanoutPending_ok hb).1
  rw [hraw.spent, List.mem_singleton] at hv
  rw [hv] at hin
  rcases hne with hne | hne
  · exact hne (hone hin).1
  · exact hne (hone hin).2

/-- The dispatch: the L1 fanout is made again only for a single UTXO. -/
theorem RefanInv.dispatch_point (h : RefanInv sdk o w) (hq : Idle w.store q) {n l : ℤ} :
    RefanPoint o w { q with
      bootstrapLocked := true
      main := dispatch w.store.stageOr q.queue.length n l } := by
  have hlen := hq.queue.length_eq
  unfold RefanPoint
  cases hst : w.store.stageOr with
  | none =>
    dsimp only [dispatch]
    split_ifs with h1
    · trivial
    · exact h.l1Gone (Or.inl (by omega))
    · exact h.l1Gone (Or.inl (by omega))
    · trivial
  | l1Done => exact h.l1Gone (Or.inr (by rw [hst]; simp))
  | l2Partial =>
    have hgone := h.l1Gone (Or.inr (by rw [hst]; simp))
    dsimp only [dispatch, resumePartialL2]
    split_ifs
    · exact hgone
    · exact hgone
    · exact hgone
    · trivial
  | l2Done => trivial
  | unknown => trivial

/-- The funding UTXO is imported. -/
theorem RefanInv.pushSeed (h : RefanInv sdk o w) {u : UTXO}
    (hnew : ∀ v ∈ known w.imported w.committed, sdk.outpoint v ≠ sdk.outpoint u) (hgone : L1Gone w)
    (hst : w.store.stageOr = .none) {q' : Proc Hash} (hpar : FromOptions o q')
    (hS' : StageInv sdk ((w.importUTXO u).setProc q'))
    (hm : (∃ rest, q'.main = .pushSeed rest)) : RefanInv sdk o ((w.importUTXO u).setProc q') := by
  obtain ⟨rest, hm⟩ := hm
  have hknown : ∀ x ∈ known w.imported w.committed,
      x ∈ known (w.importUTXO u).imported w.committed :=
    fun x hx => known_of_grows (Grows.importUTXO w u) hx
  have hmem : ∀ v, v ∈ (w.importUTXO u).store.loadAll → v = u ∨ v ∈ w.store.loadAll := by
    intro v hv
    rcases Table.mem_insert.1 hv with h | ⟨-, h⟩
    · exact Or.inl h
    · exact Or.inr h
  have hor : (w.importUTXO u).store.stageOr = .none := hst
  -- what an L1 fanout was sent for is known, so it is not the new UTXO
  have hsent : ∀ a ∈ w.sent, a.2.stage = some .l1Done → ∃ x ∈ known w.imported w.committed,
      fanoutPending sdk x o.l1Count o.mode .l1Done = .ok a.2 ∧
        x ∉ (w.importUTXO u).store.loadAll := by
    intro a ha hs
    obtain ⟨x, hx, hb, -⟩ := h.sentL1 a ha hs
    obtain ⟨raw, hraw⟩ := (fanoutPending_ok hb).1
    refine ⟨x, hx, hb, fun hin => ?_⟩
    rcases hmem x hin with rfl | hin
    · exact hnew x hx rfl
    · refine hgone a ha hs x ?_ hin
      rw [hraw.spent]
      exact List.mem_singleton_self x
  exact {
    stages := hS'
    params := by rintro x ⟨⟩; exact hpar
    point := by
      rintro x ⟨⟩
      unfold RefanPoint
      rw [hm]
      intro a ha hs v hv
      obtain ⟨x, -, hb, hno⟩ := hsent a ha hs
      obtain ⟨raw, hraw⟩ := (fanoutPending_ok hb).1
      rw [hraw.spent, List.mem_singleton] at hv
      rw [hv]
      exact hno
    sentL1 := by
      intro a ha hs
      obtain ⟨x, hx, hb, hno⟩ := hsent a ha hs
      exact ⟨x, hknown x hx, hb, fun hin => absurd hin hno⟩
    early := fun _ => h.early (Or.inl hst)
    pending := h.pending
    stored := fun hst' => absurd (hor.symm.trans hst') (by simp)
    plan := by
      obtain ⟨us, hus⟩ := h.plan
      refine ⟨us, ⟨fun a ha hs => ?_, ?_, fun hst' => absurd (hor.symm.trans hst') (by simp)⟩⟩
      · obtain ⟨x, hx, hb⟩ := hus.sent a ha hs
        exact ⟨x, hknown x hx, hb⟩
      · rintro x ⟨⟩ hx
        rw [hm] at hx
        cases hx }

/-- A step that only moves the process, to a point other than the L2 fanouts. -/
theorem RefanInv.move (h : RefanInv sdk o w) {q' : Proc Hash} (hS' : StageInv sdk (w.setProc q'))
    (hpar : FromOptions o q') (hpt : RefanPoint o w q') (hm : q'.main ≠ .l2) :
    RefanInv sdk o (w.setProc q') := by
  refine h.calm hS' ⟨rfl, rfl, rfl, rfl⟩ rfl (fun p hp => Or.inl hp) ?_ ?_ ?_
  · rintro x ⟨⟩
    exact hpar
  · rintro x ⟨⟩
    exact hpt
  · rintro x ⟨⟩ hx
    exact absurd hx hm

/-- A write of the stage that is already persisted. -/
theorem RefanInv.rewrite (h : RefanInv sdk o w) {st : Stage} (hst : w.store.stageOr = st)
    {q' : Proc Hash} (hS' : StageInv sdk ((w.writeStage true st).setProc q'))
    (hpar : FromOptions o q') (hpt : RefanPoint o ((w.writeStage true st).setProc q') q')
    (hm : q'.main ≠ .l2) : RefanInv sdk o ((w.writeStage true st).setProc q') := by
  refine h.calm hS' ⟨rfl, rfl, rfl, rfl⟩ hst.symm (fun p hp => Or.inl hp) ?_ ?_ ?_
  · rintro x ⟨⟩
    exact hpar
  · rintro x ⟨⟩
    exact hpt
  · rintro x ⟨⟩ hx
    exact absurd hx hm

/-- **A step of the main goroutine.** -/
theorem RefanInv.mainEffect (h : RefanInv sdk o w) (hinj : Function.Injective sdk.txHash)
    (hq : w.proc = some q) (he : MainEffect w q true w') (hord : FanoutOrder w)
    (hS' : StageInv sdk w') (hf : Fresh sdk w'.imported w'.committed) : RefanInv sdk o w' := by
  have hp := h.stages.inv.proc q hq
  have hst := h.stages.point q hq
  have hpt := h.point q hq
  have hpar := h.params q hq
  have hpar' : ∀ q', w'.proc = some q' → FromOptions o q' :=
    fun q' hq' => hpar.of_same (he.params hq hq')
  unfold ProcOK at hp
  unfold StagePoint at hst
  unfold RefanPoint at hpt
  cases he with
  | wait => exact h
  | persist u rest hm =>
    rw [hm] at hpt
    have himp := importUTXO_of_mem (hpt u List.mem_cons_self)
    rw [himp] at hS' hpar' ⊢
    exact h.move hS' (hpar' _ rfl) (fun v hv => hpt v (List.mem_cons_of_mem _ hv)) (by simp)
  | persisted | replayUnknown | restored | ready | seeded =>
    exact h.move hS' (hpar' _ rfl) trivial (by simp)
  | replayCommit p rest changed unknown hm =>
    rw [hm] at hp
    have hL := h.stages.inv.ledger
    have hpm : p ∈ w.store.loadPending := hp.rest.mem_iff.1 List.mem_cons_self
    obtain ⟨u, raw, hb, hu⟩ := hL.pending_built p hpm
    obtain ⟨st, hne, hor, hps, -⟩ := h.stages.staged.commit hL hpm
    have hl1 : w.store.stageOr ≠ .l1Done := by
      intro hor'
      have hnil := h.stages.staged
      unfold Staged at hnil
      rw [hor'] at hnil
      rw [hnil] at hpm
      cases hpm
    rw [hps] at hS' hpar' ⊢
    refine h.commit hinj hf hb hu (hL.pending_txID p hpm) hl1 ?_ ?_ ⟨rfl, rfl, rfl, rfl⟩ rfl hS' hpar'
      ?_ (by rintro x ⟨⟩ ⟨⟩)
    · intro hnone
      rw [hps]
      rintro ⟨⟩
      rcases hor with hor | ⟨-, ⟨⟩⟩
      rw [hnone] at hor
      cases hor
    · intro hl2
      have hst' : p.stage = some .l2Partial := by
        rcases hor with hor | ⟨hor, -⟩
        · rw [hps, ← hor, hl2]
        · rw [hl2] at hor
          cases hor
      exact ⟨hst', h.pending p hpm hst'⟩
    · rintro x ⟨⟩
      exact h.l1Gone_commit hinj hf hb hu
  | replayStage _ st rest changed unknown hm =>
    rw [hm] at hst hpt
    -- the stage is written again, or it is `l1Done` after the replay of the L1 fanout
    rcases hst.2.1 with hor | ⟨hor, rfl⟩
    · exact h.rewrite hor hS' (hpar' _ rfl) trivial (by simp)
    · refine h.advance hS' ⟨rfl, rfl, rfl, rfl⟩ hpt (Or.inr ⟨rfl, hor⟩) (fun p hp => hp) hpar' ?_ ?_
      · rintro x ⟨⟩
        trivial
      · rintro x ⟨⟩
        simp
  | restoredUnknown _ changed unknown hm hu =>
    rw [hm] at hp
    exact absurd hp.unknown hu
  | waitForSeed _ hm _ hqueue =>
    rw [hm] at hp
    -- the queue mirrors the store, so what an L1 fanout spent is not in it
    have hnil : w.store.loadAll = [] := (hqueue ▸ hp.queue).nil_eq.symm
    refine h.move hS' (hpar' _ rfl) ?_ (by simp)
    intro a _ _ u _
    rw [hnil]
    exact List.not_mem_nil
  | pushSeed u rest hm =>
    rw [hm] at hp hst hpt
    exact h.pushSeed (hp.2.2 u List.mem_cons_self) hpt hst (hpar' _ rfl) hS' ⟨rest, rfl⟩
  | lock _ st hm =>
    rw [hm] at hp hst
    rw [hst] at hS' hpar' ⊢
    refine h.move hS' (hpar' _ rfl) (h.dispatch_point hp) fun hx => ?_
    rcases dispatch_cases Hash w.store.stageOr q.queue.length q.numChains q.l1Count with
      hd | hd | hd | hd | ⟨e, hd⟩ <;> rw [hd] at hx <;> cases hx
  | beginL1 _ seed rest hm =>
    rw [hm] at hst
    refine h.rewrite hst.1 hS' (hpar' _ rfl) ?_ (by simp)
    intro t ht
    rw [List.mem_singleton.1 ht]
    exact ⟨hpar.l1Count, fun ho => (by cases ho)⟩
  | endL1 _ t outputs hm ht hpc =>
    rw [hm] at hst hpt
    have hgone : L1Gone w := (hpt t (by rw [ht]; exact List.mem_singleton_self t)).2
      (by rw [Task.accepted, hpc])
    refine h.advance hS' ⟨rfl, rfl, rfl, rfl⟩ hgone (Or.inr ⟨rfl, hst.1⟩) (fun p hp => hp) hpar' ?_ ?_
    · rintro x ⟨⟩
      exact hgone
    · rintro x ⟨⟩
      simp
  | beginL2 _ hm =>
    rw [hm] at hp
    refine h.l2Begin hq hm hord hS' ⟨rfl, rfl, rfl, rfl⟩ rfl (fun p hp => hp) hpar' ?_ ?_
    · rintro x ⟨⟩
      trivial
    · rintro x ⟨⟩ - t ht
      exact beginL2_sizes hp.1 hpar (hord q hq hm).2 ht
  | endL2 _ hm =>
    rw [hm] at hst
    have hgone := h.l1Gone (Or.inr (by rw [hst]; simp))
    refine h.advance hS' ⟨rfl, rfl, rfl, rfl⟩ hgone (Or.inl rfl) (fun p hp => hp) hpar' ?_ ?_
    · rintro x ⟨⟩
      trivial
    · rintro x ⟨⟩
      simp
  | markDone _ hm =>
    rw [hm] at hpt
    refine h.advance hS' ⟨rfl, rfl, rfl, rfl⟩ hpt (Or.inl rfl) (fun p hp => hp) hpar' ?_ ?_
    · rintro x ⟨⟩
      trivial
    · rintro x ⟨⟩
      simp
  | startChain _ u rest hm =>
    refine h.move hS' (hpar' _ rfl) ?_ ?_
    · unfold RefanPoint
      dsimp only
      rw [hm]
      trivial
    · dsimp only
      rw [hm]
      simp
  | fail => exact h.move hS' (hpar' _ rfl) trivial (by simp)
  | failAt _ st queue e hm =>
    rcases hm with ⟨hm, rfl⟩ | ⟨hm | hm, rfl⟩
    · rw [hm] at hst
      exact h.rewrite hst.1 hS' (hpar' _ rfl) trivial (by simp)
    · refine h.l2Begin hq hm hord hS' ⟨rfl, rfl, rfl, rfl⟩ rfl (fun p hp => hp) hpar' ?_ ?_
      · rintro x ⟨⟩
        trivial
      · rintro x ⟨⟩ ⟨⟩
    · rw [hm] at hst
      exact h.rewrite hst hS' (hpar' _ rfl) trivial (by simp)

section Tasks

variable {i : ℕ} {t t' : Task Hash} {e : TaskEvent} {queue : List UTXO}

/-- A goroutine of an L2 fanout keeps its parent and its size. -/
theorem StageInv.l2_move (h : StageInv sdk w) (hq : w.proc = some q) (hi : q.tasks[i]? = some t)
    (hmove : TaskMove t t') (hm : q.main = .l2) :
    ∀ x ∈ q.tasks.set i t', ∃ y ∈ q.tasks, x.n = y.n ∧ x.utxo = y.utxo := by
  have htm := List.mem_of_getElem? hi
  have hk : t.kind = .l2 := by
    rcases h.kind hq htm with ⟨hm', -⟩ | ⟨-, hk, -⟩ | ⟨hm', -⟩
    · rw [hm] at hm'
      cases hm'
    · exact hk
    · rw [hm] at hm'
      cases hm'
  exact forall_set (fun x hx => ⟨x, hx, rfl, rfl⟩)
    ⟨t, htm, hmove.n, hmove.utxo (by rw [hk]; decide)⟩

/-- The point after a step of a goroutine that has not committed. -/
theorem RefanInv.point_set (h : RefanInv sdk o w) (hq : w.proc = some q)
    (hi : q.tasks[i]? = some t) (hmove : TaskMove t t') (hgone : t'.accepted = true → L1Gone w') :
    RefanPoint o w' { q with queue, tasks := q.tasks.set i t' } := by
  have htm := List.mem_of_getElem? hi
  have hpt := h.point q hq
  unfold RefanPoint at hpt ⊢
  dsimp only
  rcases h.stages.kind hq htm with ⟨hm, hone, -⟩ | ⟨hm, -⟩ | ⟨hm, -⟩
  · rw [hm] at hpt ⊢
    rw [set_single hone hi t']
    intro x hx
    rw [List.mem_singleton.1 hx]
    exact ⟨hmove.n.trans (hpt t htm).1, hgone⟩
  · rw [hm]
    trivial
  · rw [hm]
    trivial

/-- A step of a goroutine that sends and commits nothing. -/
theorem RefanInv.calmTask (h : RefanInv sdk o w) (hq : w.proc = some q)
    (hi : q.tasks[i]? = some t) (hmove : TaskMove t t') (ha : t'.accepted = false)
    (hc : Calm w w') (hor : w'.store.stageOr = w.store.stageOr)
    (hpend : ∀ p ∈ w'.store.loadPending, p ∈ w.store.loadPending ∨
      (p.stage = some .l2Partial → ∃ v ∈ p.created, v.value ≠ 0))
    (hS' : StageInv sdk (w'.setProc { q with queue, tasks := q.tasks.set i t' })) :
    RefanInv sdk o (w'.setProc { q with queue, tasks := q.tasks.set i t' }) := by
  refine h.calm hS' ⟨hc.sent, hc.committed, hc.imported, hc.loadAll⟩ hor hpend ?_ ?_ ?_
  · rintro x ⟨⟩
    exact (h.params q hq).of_same ⟨rfl, rfl, rfl, id⟩
  · rintro x ⟨⟩
    exact h.point_set hq hi hmove fun hacc => by rw [ha] at hacc; cases hacc
  · rintro x ⟨⟩ hm
    exact ⟨q, hq, hm, h.stages.l2_move hq hi hmove hm⟩

/-- A transaction is handed to `Broadcast`. -/
theorem RefanInv.send (h : RefanInv sdk o w) (hq : w.proc = some q) (hi : q.tasks[i]? = some t)
    {p : PendingBroadcast Hash} (hpc : t.pc = .saved p) (hmove : TaskMove t t')
    (ha : t'.accepted = false) (hsent : w'.sent = w.sent ++ [(w.life, p)])
    (hstore : w'.store = w.store) (hcom : w'.committed = w.committed)
    (himp : w'.imported = w.imported)
    (hS' : StageInv sdk (w'.setProc { q with queue, tasks := q.tasks.set i t' })) :
    RefanInv sdk o (w'.setProc { q with queue, tasks := q.tasks.set i t' }) := by
  have htm := List.mem_of_getElem? hi
  have hC := (h.stages.inv.proc q hq).custody hi
  have hrec : t.record = some p := by rw [Task.record, hpc]
  have hna := Task.accepted_of_record hrec
  have hb := (hC.records t htm p hrec).1
  have hps := Task.build_stage hb
  have hu := hC.durable t htm hna
  have hmode := (h.params q hq).mode
  have hmem : ∀ a, a ∈ w'.sent → a ∈ w.sent ∨ a = (w.life, p) := by
    intro a hm
    rw [hsent] at hm
    simpa using hm
  have hknown : t.utxo ∈ known w.imported w.committed := h.stages.inv.ledger.known_of_stored hu
  -- the record and the stage, by the kind of the goroutine
  have hkind := h.stages.kind hq htm
  exact {
    stages := hS'
    params := by
      rintro x ⟨⟩
      exact (h.params q hq).of_same ⟨rfl, rfl, rfl, id⟩
    point := by
      rintro x ⟨⟩
      exact h.point_set hq hi hmove fun hacc => by rw [ha] at hacc; cases hacc
    sentL1 := by
      intro a hm hs
      show ∃ u ∈ known w'.imported w'.committed, _ ∧ (u ∈ w'.store.loadAll →
        w'.store.loadAll.length = 1 ∧ w'.store.stageOr = .none)
      rw [himp, hcom, hstore]
      rcases hmem a hm with hm | rfl
      · exact h.sentL1 a hm hs
      · rcases hkind with ⟨hmain, -, hk, hor⟩ | ⟨-, hk, -⟩ | ⟨-, hk, -⟩
        · have hpt := h.point q hq
          have hst := h.stages.point q hq
          unfold RefanPoint at hpt
          unfold StagePoint at hst
          rw [hmain] at hpt hst
          rw [Task.build, hk, (hpt t htm).1, hmode] at hb
          exact ⟨t.utxo, hknown, hb, fun _ => ⟨hst.2 t htm hna, hor⟩⟩
        · rw [hps, hk] at hs
          cases hs
        · rw [hps, hk] at hs
          cases hs
    early := by
      intro hor
      have hor' : w.store.stageOr = .none ∨ w.store.stageOr = .l1Done := hstore ▸ hor
      obtain ⟨hno, hns⟩ := h.early hor'
      refine ⟨fun r hr => hno r (hcom ▸ hr), fun a hm => ?_⟩
      rcases hmem a hm with hm | rfl
      · exact hns a hm
      · rcases hkind with ⟨-, -, hk, -⟩ | ⟨-, -, hst⟩ | ⟨-, -, hst⟩
        · rw [hps, hk]
          simp [Kind.reaches]
        · rw [hst] at hor'
          rcases hor' with hor' | hor' <;> cases hor'
        · rw [hst] at hor'
          rcases hor' with hor' | hor' <;> cases hor'
    pending := by
      intro r hr
      exact h.pending r (hstore ▸ hr)
    stored := by
      intro hst
      have hst' : w.store.stageOr = .l2Partial := hstore ▸ hst
      rcases h.stored hst' with hno | ⟨v, hv, hout⟩
      · exact Or.inl fun r hr => hno r (hcom ▸ hr)
      · exact Or.inr ⟨v, hstore ▸ hv, hout.mono fun r hr => hcom.symm ▸ hr⟩
    plan := by
      obtain ⟨us, hus⟩ := h.plan
      refine ⟨us, ⟨fun a hm hs => ?_, ?_, fun hst hno => ?_⟩⟩
      · show ∃ u ∈ known w'.imported w'.committed, _
        rw [himp, hcom]
        rcases hmem a hm with hm | rfl
        · exact hus.sent a hm hs
        · rcases hkind with ⟨-, -, hk, -⟩ | ⟨hmain, hk, -⟩ | ⟨-, hk, -⟩
          · rw [hps, hk] at hs
            cases hs
          · rw [Task.build, hk, hus.tasks q hq hmain t htm, hmode] at hb
            exact ⟨t.utxo, hknown, hb⟩
          · rw [hps, hk] at hs
            cases hs
      · rintro x ⟨⟩ hm y hy
        obtain ⟨z, hz, hn, hzu⟩ := h.stages.l2_move hq hi hmove hm y hy
        rw [hn, hzu]
        exact hus.tasks q hq hm z hz
      · show w'.store.loadAll = us
        rw [hstore]
        exact hus.root (hstore ▸ hst) fun r hr => hno r (hcom.symm ▸ hr) }

/-- **A step of a goroutine.** -/
theorem RefanInv.taskEffect (h : RefanInv sdk o w) (hinj : Function.Injective sdk.txHash)
    (hq : w.proc = some q) (hi : q.tasks[i]? = some t) (he : TaskEffect sdk w q t e w' queue t')
    (hS' : StageInv sdk (w'.setProc { q with queue, tasks := q.tasks.set i t' }))
    (hf : Fresh sdk w'.imported w'.committed) :
    RefanInv sdk o (w'.setProc { q with queue, tasks := q.tasks.set i t' }) := by
  have htm := List.mem_of_getElem? hi
  have hmove := he.move
  cases he with
  | save p savedAt hpc hb =>
    refine h.calmTask hq hi hmove rfl ⟨rfl, rfl, rfl, rfl⟩ rfl (fun r hr => ?_) hS'
    rcases Store.mem_savePending.1 hr with rfl | ⟨-, hr⟩
    · right
      intro hs
      have hs' : p.stage = some .l2Partial := hs
      have hk : t.kind = .l2 := by
        rw [Task.build_stage hb] at hs'
        cases hk : t.kind <;> rw [hk] at hs' <;> first | rfl | cases hs'
      rw [Task.build, hk] at hb
      obtain ⟨-, -, hpos, hlen, hnz⟩ := fanoutPending_ok hb
      obtain ⟨v, hv⟩ := List.exists_mem_of_length_pos (l := p.created) (by omega)
      exact ⟨v, hv, hnz v hv⟩
    · exact Or.inl hr
  | stop | giveUp | commitFail =>
    exact h.calmTask hq hi hmove rfl ⟨rfl, rfl, rfl, rfl⟩ rfl (fun r hr => Or.inl hr) hS'
  | broadcast p oc hpc =>
    refine h.send hq hi hpc hmove ?_ rfl rfl rfl rfl hS'
    cases oc <;> rfl
  | clear p ok | clearLast p ok =>
    cases ok with
    | true =>
      exact h.calmTask hq hi hmove rfl ⟨rfl, rfl, rfl, rfl⟩ rfl
        (fun r hr => Or.inl (Store.mem_clearPending.1 hr).2) hS'
    | false =>
      exact h.calmTask hq hi hmove rfl ⟨rfl, rfl, rfl, rfl⟩ rfl (fun r hr => Or.inl hr) hS'
  | commit p hpc =>
    have hC := (h.stages.inv.proc q hq).custody hi
    have hrec : t.record = some p := by rw [Task.record, hpc]
    obtain ⟨hb, hid⟩ := hC.records t htm p hrec
    obtain ⟨raw, hraw⟩ := Task.build_ok hb
    have hps := Task.build_stage hb
    have hu := hC.durable t htm (Task.accepted_of_record hrec)
    have hkind := h.stages.kind hq htm
    refine h.commit hinj hf hraw hu hid ?_ ?_ ?_ ⟨rfl, rfl, rfl, rfl⟩ rfl hS' ?_ ?_ ?_
    · rcases hkind with ⟨-, -, -, hst⟩ | ⟨-, -, hst⟩ | ⟨-, -, hst⟩ <;> rw [hst] <;> simp
    · intro hnone
      rcases hkind with ⟨-, -, hk, -⟩ | ⟨-, -, hst⟩ | ⟨-, -, hst⟩
      · rw [hps, hk]
        simp [Kind.reaches]
      · rw [hst] at hnone
        cases hnone
      · rw [hst] at hnone
        cases hnone
    · intro hl2
      rcases hkind with ⟨-, -, -, hst⟩ | ⟨-, hk, -⟩ | ⟨-, -, hst⟩
      · rw [hst] at hl2
        cases hl2
      · refine ⟨by rw [hps, hk]; rfl, ?_⟩
        rw [Task.build, hk] at hb
        obtain ⟨-, -, hpos, hlen, hnz⟩ := fanoutPending_ok hb
        obtain ⟨v, hv⟩ := List.exists_mem_of_length_pos (l := p.created) (by omega)
        exact ⟨v, hv, hnz v hv⟩
      · rw [hst] at hl2
        cases hl2
    · rintro x ⟨⟩
      exact (h.params q hq).of_same ⟨rfl, rfl, rfl, id⟩
    · rintro x ⟨⟩
      exact h.point_set hq hi hmove fun _ => h.l1Gone_commit hinj hf hraw hu
    · rintro x ⟨⟩ hm
      exact ⟨q, hq, hm, h.stages.l2_move hq hi hmove hm⟩

end Tasks

/-- **Every step of a run with fixed options.** -/
theorem RefanInv.step (h : RefanInv sdk o w) (hinj : Function.Injective sdk.txHash)
    {e : Event Hash} (he : Restarts o w e) (hsrc : SourceOK sdk w e) (hord : FanoutOrder w)
    (hf : Fresh sdk (w.step sdk e).imported (w.step sdk e).committed) :
    RefanInv sdk o (w.step sdk e) := by
  have hwrites : WritesOK e := by
    cases e <;> first | exact he | trivial
  have hS' := h.stages.step hinj hsrc hwrites hf
  have heff := step_effect sdk w e
  generalize w.step sdk e = w' at heff hS' hf
  cases heff with
  | idle => exact h
  | start o' initial hw hs =>
    obtain ⟨rfl, hinit⟩ := he
    have hre : Restores o'.mode w (.start o' initial) := ⟨rfl, hinit⟩
    refine h.calm hS' ⟨rfl, rfl, rfl, rfl⟩ rfl (fun p hp => Or.inl hp) ?_ ?_ (by rintro x ⟨⟩ ⟨⟩)
    · rintro x ⟨⟩
      exact ⟨rfl, rfl, rfl⟩
    · rintro x ⟨⟩
      exact hre.persist rfl
  | crash =>
    exact h.calm hS' ⟨rfl, rfl, rfl, rfl⟩ rfl (fun p hp => Or.inl hp) (by rintro x ⟨⟩)
      (by rintro x ⟨⟩) (by rintro x ⟨⟩)
  | cancel q hq =>
    refine h.calm hS' ⟨rfl, rfl, rfl, rfl⟩ rfl (fun p hp => Or.inl hp) ?_ ?_ ?_
    · rintro x ⟨⟩
      exact (h.params q hq).of_same ⟨rfl, rfl, rfl, id⟩
    · rintro x ⟨⟩
      exact h.point q hq
    · rintro x ⟨⟩ hm
      exact ⟨q, hq, hm, fun t ht => ⟨t, ht, rfl, rfl⟩⟩
  | configure => exact he.elim
  | poll utxos q hq hm =>
    have hpt := h.point q hq
    unfold RefanPoint at hpt
    rw [hm] at hpt
    exact h.move hS' ((h.params q hq).of_same ⟨rfl, rfl, rfl, id⟩) hpt (by simp)
  | main ok q w' hq hmain =>
    obtain rfl : ok = true := he
    exact h.mainEffect hinj hq hmain hord hS' hf
  | task i te q t t' w' queue hq hi htask => exact h.taskEffect hinj hq hi htask hS' hf

end Steps

theorem RefanInv.init (o : Options Hash) {s : Store Hash} (hpend : s.loadPending = [])
    (hst : s.stageOr = .none) (hdist : (s.loadAll.map sdk.outpoint).Nodup) :
    RefanInv sdk o (World.init s) where
  stages := StageInv.init hpend hst hdist
  params q hq := by cases hq
  point q hq := by cases hq
  sentL1 a ha := by cases ha
  early _ := ⟨fun r hr => (by cases hr), fun a ha => (by cases ha)⟩
  pending p hp := by
    have hp' : p ∈ s.loadPending := hp
    rw [hpend] at hp'
    cases hp'
  stored _ := Or.inl fun q hq => (by cases hq)
  plan := by
    refine ⟨[], ?_, ?_, fun hst' => ?_⟩
    · intro a ha
      cases ha
    · intro q hq
      cases hq
    · have hst₀ : (World.init s).store.stageOr = .none := hst
      rw [hst₀] at hst'
      cases hst'

/-- **A fanout built again is the transaction sent before.** In a run with fixed
options in which the order of the queue is that of the store's keys whenever
`bootstrapL2` starts, a fanout that is about to be built for an outpoint that a fanout
handed to `Broadcast` spends, in this lifetime or an earlier one, is that fanout. -/
theorem refanout_same (hinj : Function.Injective sdk.txHash) {o : Options Hash} {s : Store Hash}
    (hpend : s.loadPending = []) (hst : s.stageOr = .none)
    (hdist : (s.loadAll.map sdk.outpoint).Nodup) {es : List (Event Hash)}
    (hes : Along (World.step sdk) (fun w e => Restarts o w e ∧ SourceOK sdk w e ∧ FanoutOrder w)
      (World.init s) es) {w : World Hash} (hw : w = (World.init s).run sdk es)
    (hf : Fresh sdk w.imported w.committed) {a : ℕ × PendingBroadcast Hash} (ha : a ∈ w.sent)
    (hstage : a.2.stage = some .l1Done ∨ a.2.stage = some .l2Partial) {q : Proc Hash}
    (hq : w.proc = some q) {t : Task Hash} (ht : t ∈ q.tasks) (hwait : t.pc = .wait)
    (hk : t.kind ≠ .sustain) {p : PendingBroadcast Hash} (hb : t.build sdk q.mode = .ok p)
    {u : UTXO} (hu : u ∈ a.2.spent) (hout : sdk.outpoint u = sdk.outpoint t.utxo) :
    p = a.2 := by
  have h : RefanInv sdk o w := by
    rw [hw] at hf ⊢
    exact Along.inv_of_later (F := fun w => Fresh sdk w.imported w.committed) (I := RefanInv sdk o)
      (fun w e => Fresh.of_grows (step_grows w e))
      (fun _ _ h hC hf => h.step hinj hC.1 hC.2.1 hC.2.2 hf) hes
      (RefanInv.init o hpend hst hdist) hf
  have hL := h.stages.inv.ledger
  obtain ⟨i, hi⟩ := List.mem_iff_getElem?.1 ht
  have hstored := ((h.stages.inv.proc q hq).custody hi).durable t ht (by rw [Task.accepted, hwait])
  have hmode := (h.params q hq).mode
  -- outputs with one outpoint are the same output
  have hsame : ∀ {x : UTXO} {n : ℤ} {st : Stage}, x ∈ known w.imported w.committed →
      fanoutPending sdk x n o.mode st = .ok a.2 → x = t.utxo := by
    intro x n st hx hbx
    obtain ⟨raw, hraw⟩ := (fanoutPending_ok hbx).1
    rw [hraw.spent, List.mem_singleton] at hu
    exact hL.known_inj hinj hf hx (hL.known_of_stored hstored) (hu ▸ hout)
  rcases h.stages.kind hq ht with ⟨hm, -, hkind, hor⟩ | ⟨hm, hkind, hor⟩ | ⟨-, hkind, -⟩
  · have hl1 := hstage.resolve_right ((h.early (Or.inl hor)).2 a ha)
    obtain ⟨x, hx, hbx, -⟩ := h.sentL1 a ha hl1
    have hpt := h.point q hq
    unfold RefanPoint at hpt
    rw [hm] at hpt
    rw [Task.build, hkind, (hpt t ht).1, hmode, ← hsame hx hbx, hbx] at hb
    exact (Except.ok.inj hb).symm
  · rcases hstage with hl1 | hl2
    · obtain ⟨x, hx, hbx, hone⟩ := h.sentL1 a ha hl1
      have hnone := (hone (hsame hx hbx ▸ hstored)).2
      rw [hor] at hnone
      cases hnone
    · obtain ⟨us, hus⟩ := h.plan
      obtain ⟨x, hx, hbx⟩ := hus.sent a ha hl2
      rw [Task.build, hkind, hus.tasks q hq hm t ht, hmode, ← hsame hx hbx, hbx] at hb
      exact (Except.ok.inj hb).symm
  · exact absurd hkind hk

open Concrete

/-- The options of 31 chains over 11 L1 outputs. -/
def Concrete.thirtyOne : Options Bytes := options 7 31 3

/-- The fanout of L1 output 2 is accepted by the network and reported as failed, the
process ends, and the next one starts the L2 fanouts again. -/
def Concrete.lostFanout : List (Event Bytes) :=
  startup thirtyOne 5 ++ succeed 0 ++ mains 2 ++
    [.task 9 (.save true 1), .task 9 (.broadcast .lost), .task 9 (.clear true), .crash] ++
    startup thirtyOne 5

/-- The world after `lostFanout`. -/
def Concrete.fannedOutAgain : World Bytes := (World.init (funded 100000)).run plainSDK lostFanout

/-- The fanout that was sent has two outputs, the one about to be built for the same
UTXO has three. -/
theorem refanout_differs :
    Along (World.step plainSDK) (Restarts thirtyOne) (World.init (funded 100000)) lostFanout ∧
    ∃ a ∈ fannedOutAgain.sent, a.2 ∈ fannedOutAgain.accepted ∧ a.2.stage = some .l2Partial ∧
      a.2.created.length = 2 ∧ ∃ q ∈ fannedOutAgain.proc, ∃ t ∈ q.tasks, t.pc = .wait ∧
        t.kind = .l2 ∧ a.2.spent = [t.utxo] ∧
        (t.build plainSDK q.mode).toOption.map (·.created.length) = some 3 := by
  refine ⟨Along.of_forall ?_, by decide +kernel⟩
  simp [lostFanout, thirtyOne, startup, succeed, mains, Restarts]

/-- A rejected fanout of the first of two parents, and a restart. -/
def Concrete.retriedFanout : List (Event Bytes) :=
  startup (options 7 4 2) 5 ++ succeed 0 ++ mains 2 ++ attempt 0 ++ [.crash] ++
    startup (options 7 4 2) 5

theorem refanout_same_retried : ∃ a ∈ ((World.init (funded 100000)).run plainSDK retriedFanout).sent,
    ∃ q ∈ ((World.init (funded 100000)).run plainSDK retriedFanout).proc, ∃ t ∈ q.tasks,
      a.2.spent = [t.utxo] ∧ t.build plainSDK q.mode = .ok a.2 := by
  have hrun : ∃ a ∈ ((World.init (funded 100000)).run plainSDK retriedFanout).sent,
      ∃ q ∈ ((World.init (funded 100000)).run plainSDK retriedFanout).proc, ∃ t ∈ q.tasks,
        a.2.stage = some .l2Partial ∧ t.pc = .wait ∧ t.kind ≠ .sustain ∧ a.2.spent = [t.utxo] ∧
        (t.build plainSDK q.mode).toOption.isSome = true := by
    decide +kernel
  obtain ⟨a, ha, q, hq, t, ht, hs, hwait, hk, hspent, hb⟩ := hrun
  have hinj : Function.Injective plainSDK.txHash := encTx_injective
  have hfixed : Along (World.step plainSDK) (Restarts (options 7 4 2)) (World.init (funded 100000))
      retriedFanout :=
    Along.of_forall (by simp [retriedFanout, startup, succeed, attempt, mains, Restarts])
  have hord : Along (World.step plainSDK) (fun w e => SourceOK plainSDK w e ∧ FanoutOrder w)
      (World.init (funded 100000)) retriedFanout := by
    decide +kernel
  cases hp : t.build plainSDK q.mode with
  | error e =>
    rw [hp] at hb
    cases hb
  | ok p =>
    have heq := refanout_same hinj (by decide +kernel) rfl (by decide +kernel) (hfixed.and hord) rfl
      (by decide +kernel) ha (Or.inr hs) hq ht hwait hk hp
      (by rw [hspent]; exact List.mem_singleton_self _) rfl
    exact ⟨a, ha, q, hq, t, ht, hspent, by rw [hp, heq]⟩

end TxGen
