import TxGen.Proof.L2

/-!
# What a failed L2 fanout leaves

Whatever becomes of the fanouts, when `bootstrapL2` returns each parent is still queued
and stored, or is replaced by its outputs in both places, or is stored with the pending
record of its accepted fanout (`L2Fate`).
-/

namespace TxGen

open Lib
open scoped List

variable {Hash : Type} {sdk : SDK Hash}

/-! ## What becomes of a parent -/

/-- What has become of a parent when `bootstrapL2` returns.

* `kept`: its fanout failed before it was accepted
* `replaced`: its fanout is committed
* `unsettled`: its fanout was accepted and could not be committed -/
inductive L2Fate
  | kept
  | replaced
  | unsettled
  deriving DecidableEq

/-- The fate of the parent of a fanout that has returned. -/
def Task.fate (t : Task Hash) : Option L2Fate :=
  match t.pc with
  | .requeued _ => some .kept
  | .done _ => some .replaced
  | .stopped => some .unsettled
  | _ => none

/-- Where a parent with a fanout to `n` outputs, and these outputs, are with the queue
`queue` and the store `s`. -/
def L2Fate.Holds (sdk : SDK Hash) (m : Mode Hash) (parent : UTXO) (n : ℤ) (queue : List UTXO)
    (s : Store Hash) : L2Fate → Prop
  | .kept => parent ∈ queue ∧ parent ∈ s.loadAll ∧
      ∀ p, fanoutPending sdk parent n m .l2Partial = .ok p →
        ∀ c ∈ p.created, c ∉ queue ∧ c ∉ s.loadAll
  | .replaced => parent ∉ queue ∧ parent ∉ s.loadAll ∧
      ∃ p, fanoutPending sdk parent n m .l2Partial = .ok p ∧
        ∀ c ∈ p.created, c ∈ queue ∧ c ∈ s.loadAll
  | .unsettled => parent ∉ queue ∧ parent ∈ s.loadAll ∧
      ∃ p savedAt, fanoutPending sdk parent n m .l2Partial = .ok p ∧
        { p with savedAt } ∈ s.loadPending ∧ ∀ c ∈ p.created, c ∉ queue ∧ c ∉ s.loadAll

/-- The three situations exclude one another. -/
theorem L2Fate.Holds.unique {m : Mode Hash} {parent : UTXO} {n : ℤ} {queue : List UTXO}
    {s : Store Hash} {f f' : L2Fate} (h : f.Holds sdk m parent n queue s)
    (h' : f'.Holds sdk m parent n queue s) : f' = f := by
  cases f <;> cases f'
  case kept.kept | replaced.replaced | unsettled.unsettled => rfl
  case kept.replaced | kept.unsettled => exact absurd h.1 h'.1
  case replaced.kept | unsettled.kept => exact absurd h'.1 h.1
  case replaced.unsettled => exact absurd h'.2.1 h.2.1
  case unsettled.replaced => exact absurd h.2.1 h'.2.1

namespace L2Store

variable {m : Mode Hash} {n : ℤ} {parents : List UTXO} {s₀ s : Store Hash} {q : Proc Hash}
  {i : ℕ} {t : Task Hash}

/-- A committed parent is no longer stored. -/
theorem parent_gone (h : L2Store sdk m s₀ s q.tasks) (hP : L2Parents sdk s₀ parents)
    (hR : L2Run sdk m n parents q) (ht : t ∈ q.tasks) (ha : t.accepted = true) :
    t.utxo ∉ s.loadAll := by
  have hout := hP.not_output hR (hP.mem hR ht)
  have hused : t.utxo ∈ q.tasks.flatMap Task.used := Task.mem_used.2 ⟨t, ht, ha, rfl⟩
  -- one copy on the right, which is the one that was used
  have hcount := List.perm_iff_count.1 h.utxos t.utxo
  rw [List.count_append, List.count_append, List.count_eq_zero_of_not_mem hout] at hcount
  have hone : s₀.loadAll.count t.utxo ≤ 1 := List.nodup_iff_count_le_one.1 (Table.nodup_values _) _
  have hpos := List.count_pos_iff.2 hused
  exact List.count_eq_zero.1 (by omega)

/-- The outputs of a committed fanout are stored. -/
theorem created_stored (h : L2Store sdk m s₀ s q.tasks) (hP : L2Parents sdk s₀ parents)
    (hR : L2Run sdk m n parents q) {v : UTXO} (hv : v ∈ q.tasks.flatMap Task.outputs) :
    v ∈ s.loadAll := by
  rcases List.mem_append.1 (h.utxos.mem_iff.2 (List.mem_append_left _ hv)) with hused | hs
  · -- a used parent was stored, so it is no output
    obtain ⟨t, ht, -, rfl⟩ := Task.mem_used.1 hused
    exact absurd hv (hP.not_output hR (hP.mem hR ht))
  · exact hs

/-- The queue holds the parent of a fanout exactly when it was put back. -/
theorem mem_queue_iff (hP : L2Parents sdk s₀ parents) (hR : L2Run sdk m n parents q)
    (ht : t ∈ q.tasks) :
    t.utxo ∈ q.tasks.flatMap Task.outputs ++ q.queue ↔ t.requeued = true := by
  rw [List.mem_append, or_iff_right (hP.not_output hR (hP.mem hR ht)), hR.queue.mem_iff,
    Task.mem_given]
  constructor
  · rintro ⟨t₂, ht₂, hr, hu⟩
    rwa [hR.eq_of_utxo hP.distinct ht ht₂ hu]
  · intro hr
    exact ⟨t, ht, hr, rfl⟩

/-- The output of a fanout that is not committed is not queued. -/
theorem created_not_queued (hinj : Function.Injective sdk.txHash) (hP : L2Parents sdk s₀ parents)
    (hR : L2Run sdk m n parents q) (hi : q.tasks[i]? = some t) (ha : t.accepted = false)
    {p : PendingBroadcast Hash} (hb : t.build sdk m = .ok p) {c : UTXO} (hc : c ∈ p.created) :
    c ∉ q.tasks.flatMap Task.outputs ++ q.queue := by
  intro hq
  rcases List.mem_append.1 hq with hout | hq
  · exact hR.created_not_output hinj hP.distinct hi ha hb hc hout rfl
  · obtain ⟨t₂, ht₂, -, rfl⟩ := Task.mem_given.1 (hR.queue.mem_iff.1 hq)
    exact hP.created_new hR (List.mem_of_getElem? hi) hb hc (hP.mem hR ht₂) rfl

/-- **The fate of a parent** is the one its fanout ended with. -/
theorem fate (h : L2Store sdk m s₀ s q.tasks) (hinj : Function.Injective sdk.txHash)
    (hP : L2Parents sdk s₀ parents) (hR : L2Run sdk m n parents q) (hi : q.tasks[i]? = some t)
    (hend : t.ended = true) :
    ∃ f, t.fate = some f ∧
      f.Holds sdk m t.utxo t.n (q.tasks.flatMap Task.outputs ++ q.queue) s := by
  have htm := List.mem_of_getElem? hi
  have hbuild : t.build sdk m = fanoutPending sdk t.utxo t.n m .l2Partial := by
    rw [Task.build, (hR.job hi).1]
  have hqueue := mem_queue_iff hP hR htm
  unfold Task.ended at hend
  split at hend
  case h_1 outputs hpc =>
    have ha : t.accepted = true := by rw [Task.accepted, hpc]
    obtain ⟨p, hb, hp⟩ := (hR.ran t htm).outputs ha
    rw [Task.requeued, hpc] at hqueue
    refine ⟨.replaced, by rw [Task.fate, hpc], mt hqueue.1 Bool.false_ne_true,
      h.parent_gone hP hR htm ha, p, hbuild ▸ hb, fun c hc => ?_⟩
    have hout : c ∈ q.tasks.flatMap Task.outputs := List.mem_flatMap.2 ⟨t, htm, hp ▸ hc⟩
    exact ⟨List.mem_append_left _ hout, h.created_stored hP hR hout⟩
  case h_2 e hpc =>
    have ha : t.accepted = false := by rw [Task.accepted, hpc]
    rw [Task.requeued, hpc] at hqueue
    refine ⟨.kept, by rw [Task.fate, hpc], hqueue.2 rfl, h.parent_stored hP hR htm ha,
      fun p hp c hc => ?_⟩
    have hb : t.build sdk m = .ok p := hbuild.trans hp
    exact ⟨created_not_queued hinj hP hR hi ha hb hc,
      fun hs => h.created_not_stored hinj hP hR hi ha hb hc hs rfl⟩
  case h_3 hpc =>
    have ha : t.accepted = false := by rw [Task.accepted, hpc]
    rw [Task.requeued, hpc] at hqueue
    obtain ⟨p, savedAt, hb, hr⟩ := h.recorded t htm (by rw [Task.inFlight, hpc])
    refine ⟨.unsettled, by rw [Task.fate, hpc], mt hqueue.1 Bool.false_ne_true,
      h.parent_stored hP hR htm ha, p, savedAt, hbuild ▸ hb, hr, fun c hc => ?_⟩
    exact ⟨created_not_queued hinj hP hR hi ha hb hc,
      fun hs => h.created_not_stored hinj hP hR hi ha hb hc hs rfl⟩
  case h_4 => cases hend

end L2Store

theorem L2Parents.perm {s : Store Hash} {us vs : List UTXO} (h : L2Parents sdk s us)
    (hp : us ~ vs) : L2Parents sdk s vs where
  distinct := (hp.map sdk.outpoint).nodup_iff.1 h.distinct
  stored v hv := h.stored v (hp.mem_iff.2 hv)
  unspent := h.unspent

theorem L2Fate.Holds.congr {m : Mode Hash} {parent : UTXO} {n : ℤ} {queue queue' : List UTXO}
    {s s' : Store Hash} {f : L2Fate} (h : f.Holds sdk m parent n queue s) (hq : queue' ~ queue)
    (hall : s'.loadAll = s.loadAll) (hpend : s'.loadPending = s.loadPending) :
    f.Holds sdk m parent n queue' s' := by
  cases f <;> simpa only [L2Fate.Holds, hq.mem_iff, hall, hpend] using h

/-- What `bootstrapL2` leaves behind: `q` and `s` are the process and the store it began
with, `q'` the process when the last fanout returned, `q''` and `s''` those after it. -/
structure L2Returned (sdk : SDK Hash) (q : Proc Hash) (s : Store Hash) (q' q'' : Proc Hash)
    (s'' : Store Hash) : Prop where
  /-- one fanout for each parent -/
  jobs : q'.tasks.map Task.job = (Queue.drain q.queue).mapIdx fun i parent =>
    (Kind.l2, parent, l2FanoutSizeForParent q.numChains q.queue.length i)
  /-- each parent is in exactly one situation, the one its fanout ended with -/
  fates : ∀ t ∈ q'.tasks, ∃ f : L2Fate, t.fate = some f ∧
    f.Holds sdk q.mode t.utxo t.n q''.queue s'' ∧
    ∀ f' : L2Fate, f'.Holds sdk q.mode t.utxo t.n q''.queue s'' → f' = f
  queue : q''.queue ~ q'.tasks.flatMap Task.outputs ++ q'.tasks.flatMap Task.given
  utxos : q'.tasks.flatMap Task.used ++ s''.loadAll ~ q'.tasks.flatMap Task.outputs ++ s.loadAll
  ending : if ∀ t ∈ q'.tasks, t.fate = some .replaced then
      q''.stage = .l2Done ∧ q''.main = .chains
    else q''.stage = .l2Partial ∧ q''.main = .failed .bootstrapIncomplete

theorem fate_replaced_iff {t : Task Hash} : t.fate = some .replaced ↔ t.accepted = true := by
  unfold Task.fate Task.accepted
  cases t.pc <;> simp

/-- **A failed L2 fanout loses nothing.** Whatever becomes of the fanouts and in
whatever order they end, when `bootstrapL2` returns each parent has the one fate its
fanout ended with, the queue holds just the kept parents and the outputs of the
replaced ones, and the store differs from the one before by the replaced parents and
their outputs. It ends at `l2Done` when all are replaced, and otherwise fails at
`l2Partial`. With more parents than chains it only fails. -/
theorem l2_fanout_kept (hinj : Function.Injective sdk.txHash) {w : World Hash} {q : Proc Hash}
    (hq : w.proc = some q) (hm : q.main = .l2Start) (hne : q.queue ≠ [])
    (hP : L2Parents sdk w.store q.queue) (ok : Bool) :
    ((q.queue.length : ℤ) ≤ q.numChains →
      ∀ es : List (Event Hash), (∀ e ∈ es, SameLife e) → ∀ q',
      ((w.step sdk (.main ok)).run sdk es).proc = some q' → q'.main = .l2 →
      (∀ t ∈ q'.tasks, t.ended = true) → ∀ ok' w'',
      w'' = ((w.step sdk (.main ok)).run sdk es).step sdk (.main ok') →
      ∃ q'', w''.proc = some q'' ∧ L2Returned sdk q w.store q' q'' w''.store ∧
        (ok' = true → w''.store.stage = some q''.stage)) ∧
    (q.numChains < q.queue.length → ∃ q', (w.step sdk (.main ok)).proc = some q' ∧
      q'.main = .failed .manualRecovery ∧ q'.tasks = [] ∧ q'.queue ~ q.queue ∧
      (w.step sdk (.main ok)).sent = w.sent ∧
      (w.step sdk (.main ok)).store.loadAll = w.store.loadAll) := by
  have hperm := Queue.drain_perm q.queue
  have hne' := Queue.drain_ne_nil hne
  constructor
  · intro hle es hes q' hq' hm' hend ok' w'' hw''
    obtain ⟨hR, hS⟩ := l2_run hinj hq hm hne hle ok hes hq' hm'
    have hP' := hP.perm hperm.symm
    replace hS := hS hP'
    set w₂ := (w.step sdk (.main ok)).run sdk es
    have hpush := Queue.pushAll_perm q'.queue (q'.tasks.flatMap Task.outputs)
    -- neither ending touches the buckets, and both leave the same queue
    have hreturned : ∀ (st : Stage) (q'' : Proc Hash),
        q''.queue = Queue.pushAll q'.queue (q'.tasks.flatMap Task.outputs) →
        (if ∀ t ∈ q'.tasks, t.fate = some .replaced then q''.stage = .l2Done ∧ q''.main = .chains
          else q''.stage = .l2Partial ∧ q''.main = .failed .bootstrapIncomplete) →
        L2Returned sdk q w.store q' q'' (w₂.writeStage ok' st).store := by
      intro st q'' hqueue hending
      have hall : (w₂.writeStage ok' st).store.loadAll = w₂.store.loadAll := by cases ok' <;> rfl
      have hpend : (w₂.writeStage ok' st).store.loadPending = w₂.store.loadPending := by
        cases ok' <;> rfl
      refine ⟨?_, fun t ht => ?_, ?_, ?_, hending⟩
      · rw [hR.jobs, l2Tasks_jobs, hperm.length_eq]
      · obtain ⟨i, hi⟩ := List.mem_iff_getElem?.1 ht
        obtain ⟨f, hf, hholds⟩ := hS.fate hinj hP' hR hi (hend t ht)
        have hholds' := hholds.congr (hqueue ▸ hpush) hall hpend
        exact ⟨f, hf, hholds', fun f' hf' => hholds'.unique hf'⟩
      · rw [hqueue]
        exact hpush.trans (List.Perm.append_left _ hR.queue)
      · rw [hall]
        exact hS.utxos
    rw [hw'', step_endL2 hq' hm' hend ok']
    by_cases hacc : ∀ t ∈ q'.tasks, t.accepted = true
    · have hlen := hR.length_outputs hne' (by rw [hperm.length_eq]; exact hle) hacc
      rw [if_pos ⟨List.all_eq_true.2 hacc, by rw [hR.numChains]; exact hlen⟩]
      refine ⟨_, rfl, hreturned _ _ rfl ?_, ?_⟩
      · rw [if_pos fun t ht => fate_replaced_iff.2 (hacc t ht)]
        exact ⟨rfl, rfl⟩
      · rintro rfl
        rfl
    · rw [if_neg fun h => hacc (List.all_eq_true.1 h.1)]
      refine ⟨_, rfl, hreturned _ _ rfl ?_, ?_⟩
      · rw [if_neg fun h => hacc fun t ht => fate_replaced_iff.1 (h t ht)]
        exact ⟨rfl, rfl⟩
      · rintro rfl
        rfl
  · intro hlt
    rw [step_l2Start_many hq hm hne hlt]
    refine ⟨_, rfl, rfl, rfl, (Queue.restore_perm _).trans hperm, ?_, ?_⟩
    · cases ok <;> rfl
    · cases ok <;> rfl

namespace Concrete

/-- The funding outputs are not outputs of a transaction. -/
theorem unspents_funding {us : List UTXO} (h : ∀ u ∈ us, u.txHash = [102]) :
    Unspents plainSDK us := by
  intro u _ raw _ v hv he
  rw [h v hv] at he
  have henc : [102] = encTx raw := Option.some.inj he
  unfold encTx encList at henc
  cases hin : raw.inputs <;> rw [hin] at henc <;> simp at henc

/-- One fanout succeeds, one is not written, and one cannot be committed. -/
def mixedFates : List (Event Bytes) :=
  [.task 2 (.save true 1), .task 1 (.save false 1), .task 2 (.broadcast .accepted)] ++ succeed 0 ++
    [.task 2 (.commit false)]

end Concrete

/-- Each of the three fates, in one run. -/
theorem l2_fanout_kept_mixed : ∃ q q' q'',
    Concrete.threeParents.proc = some q ∧
    ((Concrete.threeParents.step Concrete.plainSDK (.main true)).run Concrete.plainSDK
      Concrete.mixedFates).proc = some q' ∧
    q'.tasks.map Task.fate = [some .replaced, some .kept, some .unsettled] ∧
    L2Returned Concrete.plainSDK q Concrete.threeParents.store q' q''
      (((Concrete.threeParents.step Concrete.plainSDK (.main true)).run Concrete.plainSDK
        Concrete.mixedFates).step Concrete.plainSDK (.main true)).store := by
  obtain ⟨q, hq, hpair⟩ := Option.map_eq_some_iff.1 Concrete.threeParents_start
  simp only [Prod.mk.injEq] at hpair
  obtain ⟨hm, hqueue, hn, -⟩ := hpair
  have hafter : ((Concrete.threeParents.step Concrete.plainSDK (.main true)).run Concrete.plainSDK
      Concrete.mixedFates).proc.map
        (fun q => (q.main, q.tasks.all Task.ended, q.tasks.map Task.fate)) =
      some (.l2, true, [some .replaced, some .kept, some .unsettled]) := by
    decide +kernel
  obtain ⟨q', hq', hpair⟩ := Option.map_eq_some_iff.1 hafter
  simp only [Prod.mk.injEq] at hpair
  obtain ⟨hm', hend, hfates⟩ := hpair
  have hP : L2Parents Concrete.plainSDK Concrete.threeParents.store q.queue := by
    rw [hqueue]
    exact ⟨by decide, by decide +kernel, Concrete.unspents_funding (by decide +kernel)⟩
  obtain ⟨q'', -, hret, -⟩ := (l2_fanout_kept Concrete.encTx_injective hq hm
    (by rw [hqueue]; decide) hP true).1 (by rw [hqueue, hn]; decide) _ (by decide) q' hq' hm'
    (List.all_eq_true.1 hend) true _ rfl
  exact ⟨q, q', q'', hq, hq', hfates, hret⟩

end TxGen
