import TxGen.Proof.Concrete
import TxGen.Proof.Invariant

/-!
# Where the stored UTXOs come from

* `ledger_conserved`: in every state of every run from an empty store, the `utxos`
  bucket is the set of unspent outputs, and the satoshis imported are those stored
  and those paid in fees.
* `stored_provenance`: every stored UTXO was imported, or created by a transaction
  that the network accepted, or by one whose record a restart replayed when its last
  attempt was not settled. Such a record stands for a transaction that may never have
  been sent (`replay_of_unsent`). An attempt is settled when its broadcast has returned
  an error and its record is removed; what a restart finds then is not replayed.
-/

namespace TxGen

open Lib
open scoped List

variable {Hash : Type} {sdk : SDK Hash}

/-! ## Conservation -/

theorem totalSpent_eq {committed : List (PendingBroadcast Hash)}
    (h : ∀ p ∈ committed, total p.created < total p.spent) :
    totalSpent committed = totalCreated committed + (committed.map PendingBroadcast.fee).sum := by
  induction committed with
  | nil => rfl
  | cons p ps ih =>
    have hp := h p List.mem_cons_self
    have ih := ih fun q hq => h q (List.mem_cons_of_mem _ hq)
    simp only [totalSpent, totalCreated, List.map_cons, List.sum_cons] at ih ⊢
    have hfee : p.fee = total p.spent - total p.created := rfl
    omega

/-- **The durable UTXO set and the satoshis are conserved** over every run from an
empty store in which the source returns new outpoints. -/
theorem ledger_conserved (hinj : Function.Injective sdk.txHash) {es : List (Event Hash)}
    (hs : Along (World.step sdk) (SourceOK sdk) (World.init Store.empty) es) {w : World Hash}
    (hw : w = (World.init Store.empty).run sdk es) (hf : Fresh sdk w.imported w.committed) :
    (∀ u, u ∈ w.store.loadAll ↔
      (u ∈ w.imported ∨ ∃ p ∈ w.committed, u ∈ p.created ∧ u.value ≠ 0) ∧
        ∀ p ∈ w.committed, ∀ v ∈ p.spent, sdk.outpoint v ≠ sdk.outpoint u) ∧
    (w.store.loadAll.map sdk.outpoint).Nodup ∧
    (w.imported.map sdk.outpoint).Nodup ∧
    total w.store.loadAll + (w.committed.map PendingBroadcast.fee).sum = total w.imported ∧
    ∀ p ∈ w.committed, 0 < p.fee := by
  have hI : Inv sdk w := by
    rw [hw] at hf ⊢
    exact run_inv hinj (init_inv rfl (by simp [Store.empty, Store.loadAll])) hs hf
  have hL := hI.ledger
  have hless : ∀ p ∈ w.committed, total p.created < total p.spent := by
    intro p hp
    obtain ⟨u, raw, hb, -⟩ := hL.committed_built p hp
    rw [hb.spent]
    exact hb.less
  refine ⟨fun u => ?_, ?_, hL.imported_inj, ?_, fun p hp => Nat.sub_pos_of_lt (hless p hp)⟩
  · rw [hL.stored u, Unspent]
    refine and_congr_right fun hu => ⟨fun h p hp v hv he => ?_, fun h p hp hup => h p hp u hup rfl⟩
    have huk : u ∈ known w.imported w.committed := by
      rcases hu with hu | ⟨r, hr, hu, -⟩
      · exact mem_known.2 (Or.inl hu)
      · exact mem_known.2 (Or.inr ⟨r, hr, hu⟩)
    obtain ⟨x, raw, hb, hx⟩ := hL.committed_built p hp
    rw [hb.spent, List.mem_singleton] at hv
    have hxu : x = u := hL.known_inj hinj hf hx huk (by rw [← hv, he])
    exact h p hp (by rw [hb.spent, hxu]; exact List.mem_singleton_self u)
  · refine (List.nodup_map_iff_inj_on (Table.nodup_values _)).2 fun u hu v hv he => ?_
    exact hL.known_inj hinj hf (hL.known_of_stored hu) (hL.known_of_stored hv) he
  · have hbal := hL.balance
    rw [totalSpent_eq hless] at hbal
    omega

/-- A bootstrap into two chains and one hop, with a failed broadcast on the way. -/
def Concrete.bootstrapRun : List (Event Bytes) :=
  .start (options 7 2 1) [funding 0 1000] :: List.replicate 6 (.main true) ++
    [.task 0 (.save true 1), .task 0 (.broadcast .rejected), .task 0 (.clear true),
      .task 0 (.save true 2), .task 0 (.broadcast .accepted), .task 0 (.commit true),
      .main true, .main true,
      .task 1 (.save true 3), .task 1 (.broadcast .accepted), .task 0 (.save true 4),
      .task 0 (.broadcast .accepted), .task 0 (.commit true), .task 1 (.commit true),
      .main true, .main true, .task 0 (.save true 5), .crash] ++
    startup (options 7 2 1) 4

open Concrete in
theorem ledger_conserved_bootstrap :
    total ((World.init Store.empty).run plainSDK bootstrapRun).store.loadAll +
      (((World.init Store.empty).run plainSDK bootstrapRun).committed.map
        PendingBroadcast.fee).sum = 1000 :=
  (ledger_conserved encTx_injective (by decide +kernel) rfl (by decide +kernel)).2.2.2.1.trans
    (by decide +kernel)

/-! ## Provenance -/

/-- Every stored UTXO was imported or created by a committed transaction, every
committed transaction was accepted or replayed, and a goroutine about to commit has
seen its transaction accepted. -/
structure Provenance (w : World Hash) : Prop where
  stored : ∀ u ∈ w.store.loadAll, u ∈ w.imported ∨ ∃ p ∈ w.committed, u ∈ p.created
  committed : ∀ p ∈ w.committed, p ∈ w.accepted ∨ p ∈ w.replayed
  tasks : ∀ q, w.proc = some q → ∀ t ∈ q.tasks, ∀ p, t.pc = .accepted p → p ∈ w.accepted

namespace Provenance

variable {w w' : World Hash}

theorem commit_stored (h : Provenance w) (p : PendingBroadcast Hash) :
    ∀ u ∈ (w.commit p).store.loadAll,
      u ∈ w.imported ∨ ∃ r ∈ w.committed ++ [p], u ∈ r.created := by
  intro u hu
  rcases Store.mem_commitPending hu with ⟨hu, -⟩ | hu
  · exact Or.inr ⟨p, List.mem_append_right _ (List.mem_singleton_self p), hu⟩
  · rcases h.stored u hu with hi | ⟨r, hr, hu⟩
    · exact Or.inl hi
    · exact Or.inr ⟨r, List.mem_append_left _ hr, hu⟩

theorem import_stored (h : Provenance w) (v : UTXO) :
    ∀ u ∈ (w.importUTXO v).store.loadAll,
      u ∈ (w.importUTXO v).imported ∨ ∃ r ∈ w.committed, u ∈ r.created := by
  intro u hu
  have hgrow := (Grows.importUTXO w v).imported
  by_cases hv : v ∈ w.store.loadAll
  · rw [importUTXO_of_mem hv] at hu ⊢
    exact h.stored u hu
  · rcases Table.mem_insert.1 hu with rfl | ⟨-, hu⟩
    · left
      show u ∈ (if u ∈ w.store.loadAll then w.imported else w.imported ++ [u])
      rw [if_neg hv]
      exact List.mem_append_right _ (List.mem_singleton_self u)
    · exact (h.stored u hu).imp_left fun hi => hgrow hi

/-- A quiet step. -/
theorem quiet (h : Provenance w) (hq : Quiet w w')
    (htasks : ∀ q, w'.proc = some q → ∀ t ∈ q.tasks, ∀ p, t.pc = .accepted p → p ∈ w.accepted) :
    Provenance w' where
  stored u hu := by
    rw [hq.imported, hq.committed]
    rcases hq.store with hs | ⟨st, hs⟩ <;> rw [hs] at hu <;> exact h.stored u hu
  committed p hp := by
    rw [hq.accepted, hq.replayed]
    exact h.committed p (hq.committed ▸ hp)
  tasks := by
    rw [hq.accepted]
    exact htasks

/-- A step of the main goroutine. -/
theorem mainEffect (h : Provenance w) {q : Proc Hash} (hq : w.proc = some q) {ok : Bool}
    (he : MainEffect w q ok w') : Provenance w' := by
  have htasks : ∀ q', w'.proc = some q' → ∀ t ∈ q'.tasks, ∀ p,
      t.pc = .accepted p → p ∈ w.accepted := by
    intro q' hq' t ht p hp
    rcases he.tasks hq hq' t ht with ht | ⟨hw, -⟩
    · exact h.tasks q hq t ht p hp
    · rw [hw] at hp
      cases hp
  rcases he.history with hc | ⟨u, rest, q', -, hc⟩ | ⟨p, rest, ch, un, q', -, -, hc⟩
  · exact h.quiet hc htasks
  · rw [hc] at htasks ⊢
    exact ⟨h.import_stored u, h.committed, htasks⟩
  · rw [hc] at htasks ⊢
    refine ⟨h.commit_stored p, fun r hr => ?_, htasks⟩
    rcases List.mem_append.1 hr with hr | hr
    · exact (h.committed r hr).imp_right fun hr => List.mem_append_left _ hr
    · exact Or.inr (List.mem_append_right _ hr)

/-- A step of a spending goroutine. -/
theorem taskEffect (h : Provenance w) {q : Proc Hash} (hq : w.proc = some q) {i : ℕ}
    {t t' : Task Hash} (hi : q.tasks[i]? = some t) {e : TaskEvent} {queue : List UTXO}
    (heff : TaskEffect sdk w q t e w' queue t') :
    Provenance (w'.setProc { q with queue, tasks := q.tasks.set i t' }) := by
  have hgrow := (Grows.taskEffect heff).accepted
  have hset : (∀ p, t'.pc = .accepted p → p ∈ w'.accepted) →
      ∀ x ∈ q.tasks.set i t', ∀ p, x.pc = .accepted p → p ∈ w'.accepted := by
    intro ht'
    exact forall_set (fun x hx p hp => hgrow (h.tasks q hq x hx p hp)) ht'
  -- a step that neither imports nor commits
  have hmk : w'.store.loadAll = w.store.loadAll → w'.imported = w.imported →
      w'.committed = w.committed → w'.replayed = w.replayed →
      (∀ p, t'.pc = .accepted p → p ∈ w'.accepted) →
      Provenance (w'.setProc { q with queue, tasks := q.tasks.set i t' }) := by
    intro hs himp hcom hrep ht'
    refine ⟨fun u hu => ?_, fun p hp => ?_, by rintro q' ⟨⟩; exact hset ht'⟩
    · show u ∈ w'.imported ∨ ∃ p ∈ w'.committed, u ∈ p.created
      rw [himp, hcom]
      exact h.stored u (hs ▸ hu)
    · show p ∈ w'.accepted ∨ p ∈ w'.replayed
      rw [hrep]
      exact (h.committed p (hcom ▸ hp)).imp_left fun hp => hgrow hp
  cases heff with
  | save | stop | giveUp | commitFail =>
    exact hmk rfl rfl rfl rfl (by rintro p ⟨⟩)
  | broadcast p o hpc =>
    refine hmk rfl rfl rfl rfl fun r hr => ?_
    cases o with
    | accepted =>
      -- the task holds an accepted record only when the network has accepted it
      cases hr
      exact List.mem_append_right _ (List.mem_singleton_self p)
    | rejected | lost => cases hr
  | clear p ok | clearLast p ok =>
    cases ok <;> exact hmk rfl rfl rfl rfl (by rintro p ⟨⟩)
  | commit p hpc =>
    have hacc := h.tasks q hq t (List.mem_of_getElem? hi) p hpc
    refine ⟨h.commit_stored p, fun r hr => ?_, ?_⟩
    · rcases List.mem_append.1 hr with hr | hr
      · exact h.committed r hr
      · rw [List.mem_singleton.1 hr]
        exact Or.inl hacc
    · rintro q' ⟨⟩
      refine hset fun r hr => ?_
      unfold Task.afterCommit at hr
      split_ifs at hr
      split at hr
      · split_ifs at hr
      · cases hr

/-- **Every step keeps the provenance of the stored UTXOs.** -/
theorem step (h : Provenance w) (e : Event Hash) : Provenance (w.step sdk e) := by
  have hsame : ∀ q', (∀ t ∈ q'.tasks, ∀ p, t.pc = .accepted p → p ∈ w.accepted) →
      Provenance (w.setProc q') := fun q' hq' =>
    ⟨h.stored, h.committed, by rintro q ⟨⟩; exact hq'⟩
  have he := step_effect sdk w e
  generalize w.step sdk e = w' at he ⊢
  cases he with
  | idle => exact h
  | start => exact ⟨h.stored, h.committed, by rintro q ⟨⟩ t ht; cases ht⟩
  | crash => exact ⟨h.stored, h.committed, by rintro q ⟨⟩⟩
  | cancel q hq => exact hsame _ (h.tasks q hq)
  | configure u q q' hq hst hc =>
    obtain ⟨-, n, f, m, rfl⟩ := configure_ok hc
    exact hsame _ (h.tasks q hq)
  | poll us q hq => exact hsame _ (h.tasks q hq)
  | main ok q w' hq hmain => exact h.mainEffect hq hmain
  | task i te q t t' w' queue hq hi htask => exact h.taskEffect hq hi htask

end Provenance

/-! ## Unsettled attempts -/

/-- The step `e` writes the record `p` of an attempt. -/
def Saves (sdk : SDK Hash) (w : World Hash) (e : Event Hash) (p : PendingBroadcast Hash) : Prop :=
  ∃ q i t r savedAt, w.proc = some q ∧ q.tasks[i]? = some t ∧ t.pc = .wait ∧
    t.build sdk q.mode = .ok r ∧ r.txID ≠ [] ∧ e = .task i (.save true savedAt) ∧
    p = { r with savedAt }

/-- The step `e` removes the record of `txid`, whose broadcast has returned an error. -/
def Clears (w : World Hash) (e : Event Hash) (txid : Bytes) : Prop :=
  ∃ q i t p, w.proc = some q ∧ q.tasks[i]? = some t ∧ t.pc = .rejected p ∧
    e = .task i (.clear true) ∧ p.txID = txid

/-- The step `e` is `CommitPending` of the record `p` in a replay. -/
def Replays (w : World Hash) (e : Event Hash) (p : PendingBroadcast Hash) : Prop :=
  ∃ q rest changed unknown, w.proc = some q ∧ q.main = .replay (p :: rest) changed unknown ∧
    e = .main true

/-- After the events `es` the attempt with the record `p` is not settled: the record was
found in the file or written, and no failed answer to it has been followed by its
removal. This is about the steps taken, not about what they have left in the file. -/
inductive Unsettled (sdk : SDK Hash) (s : Store Hash) :
    List (Event Hash) → PendingBroadcast Hash → Prop
  | found {p : PendingBroadcast Hash} (hp : p ∈ s.loadPending) : Unsettled sdk s [] p
  | saved {es : List (Event Hash)} {e : Event Hash} {p : PendingBroadcast Hash}
      (hp : Saves sdk ((World.init s).run sdk es) e p) : Unsettled sdk s (es ++ [e]) p
  | later {es : List (Event Hash)} {e : Event Hash} {p : PendingBroadcast Hash}
      (hp : Unsettled sdk s es p) (he : ¬Clears ((World.init s).run sdk es) e p.txID) :
      Unsettled sdk s (es ++ [e]) p

/-- A step of the run replays `p` when its attempt is not settled. -/
def ReplayedUnsettled (sdk : SDK Hash) (s : Store Hash) (es : List (Event Hash))
    (p : PendingBroadcast Hash) : Prop :=
  ∃ es₁ e es₂, es = es₁ ++ e :: es₂ ∧ Replays ((World.init s).run sdk es₁) e p ∧
    Unsettled sdk s es₁ p

/-- The records a replay has still to apply. -/
def Main.records : Main Hash → List (PendingBroadcast Hash)
  | .replay rest _ _ | .replayStage _ rest _ _ => rest
  | _ => []

theorem Main.records_eq_nil {m : Main Hash} (h : m.starting = false) : m.records = [] := by
  cases m <;> first | rfl | cases h

theorem dispatch_starting (st : Stage) (queued n l : ℤ) :
    (dispatch st queued n l : Main Hash).starting = false := by
  rcases dispatch_cases Hash st queued n l with h | h | h | h | ⟨e, h⟩ <;> rw [h] <;> rfl

theorem ReplayedUnsettled.later {s : Store Hash} {es : List (Event Hash)} {p : PendingBroadcast Hash}
    (h : ReplayedUnsettled sdk s es p) (e : Event Hash) : ReplayedUnsettled sdk s (es ++ [e]) p := by
  obtain ⟨es₁, e₁, es₂, rfl, hr, hu⟩ := h
  exact ⟨es₁, e₁, es₂ ++ [e], by simp, hr, hu⟩

section Step

variable {w w' : World Hash} {e : Event Hash} {r : PendingBroadcast Hash}

/-- A record in the file was there before the step, or the step writes it. -/
theorem step_pending (hr : r ∈ (w.step sdk e).store.loadPending) :
    r ∈ w.store.loadPending ∨ Saves sdk w e r := by
  have he := step_effect sdk w e
  generalize w.step sdk e = w' at he hr
  cases he with
  | idle | start | crash | cancel | configure | poll => exact Or.inl hr
  | main ok q w' hq hmain =>
    left
    rcases hmain.history with hc | ⟨u, rest, q', -, rfl⟩ | ⟨p, rest, ch, un, q', -, -, rfl⟩
    · rcases hc.store with hs | ⟨st, hs⟩ <;> rw [hs] at hr <;> exact hr
    · exact hr
    · exact Store.mem_pending_of_commit hr
  | task i te q t t' w' queue hq hi htask =>
    cases htask with
    | save p savedAt hpc hb hid =>
      rcases Store.mem_savePending.1 hr with rfl | ⟨-, hr⟩
      · exact Or.inr ⟨q, i, t, p, savedAt, hq, hi, hpc, hb, hid, rfl, rfl⟩
      · exact Or.inl hr
    | stop | giveUp | broadcast | commitFail => exact Or.inl hr
    | clear p ok | clearLast p ok =>
      cases ok with
      | false => exact Or.inl hr
      | true => exact Or.inl (Store.mem_clearPending.1 hr).2
    | commit p => exact Or.inl (Store.mem_pending_of_commit hr)

/-- A record that a step clears is not in the file after it. -/
theorem not_clears (hr : r ∈ (w.step sdk e).store.loadPending) : ¬Clears w e r.txID := by
  rintro ⟨q, i, t, p, hq, hi, hpc, rfl, hid⟩
  have hstore : (w.step sdk (.task i (.clear true))).store = w.store.clearPending p.txID := by
    rw [step_task hq, World.taskStep, hi]
    simp only [hpc, World.taskClear, if_true]
    split_ifs <;> rfl
  rw [hstore] at hr
  exact (Store.mem_clearPending.1 hr).1 hid.symm

/-- A step that leads into a start has been in it before, and goes on with records it
had or reads them from the file. -/
theorem MainEffect.of_starting {q q' : Proc Hash} {ok : Bool} (h : MainEffect w q ok w')
    (hq : w.proc = some q) (hq' : w'.proc = some q') (hst : q'.main.starting = true) :
    q.main.starting = true ∧ q'.tasks = q.tasks ∧
      ∀ p ∈ q'.main.records, p ∈ q.main.records ∨ p ∈ w.store.loadPending := by
  cases h with
  | wait =>
    obtain rfl := Option.some.inj (hq.symm.trans hq')
    exact ⟨hst, rfl, fun p hp => Or.inl hp⟩
  | newFails => cases hq'
  | persist u rest hm =>
    cases hq'
    rw [hm]
    exact ⟨rfl, rfl, fun p hp => (List.not_mem_nil hp).elim⟩
  | persisted _ hm =>
    cases hq'
    rw [hm]
    refine ⟨rfl, rfl, fun p hp => Or.inr ?_⟩
    exact (List.mem_insertionSort replayBefore).1 hp
  | replayUnknown _ p rest changed unknown hm =>
    cases hq'
    rw [hm]
    exact ⟨rfl, rfl, fun x hx => Or.inl (List.mem_cons_of_mem p hx)⟩
  | replayCommit p rest changed unknown hm =>
    cases hq'
    rw [hm]
    refine ⟨rfl, rfl, fun x hx => Or.inl (List.mem_cons_of_mem p ?_)⟩
    cases hstage : p.stage <;> rw [hstage] at hx <;> exact hx
  | replayStage _ stage rest changed unknown hm =>
    cases hq'
    rw [hm]
    exact ⟨rfl, rfl, fun p hp => Or.inl hp⟩
  | lock _ stage hm =>
    cases hq'
    rw [dispatch_starting] at hst
    cases hst
  | startChain _ u rest hm =>
    cases hq'
    rw [hm] at hst
    cases hst
  | restored | restoredUnknown | waitForSeed | ready | pushSeed | seeded | beginL1 | endL1 | beginL2
  | endL2 | markDone | fail | failAt =>
    cases hq'
    cases hst

/-- A record counted as replayed was so before the step, or the step replays it. -/
theorem step_replayed (hr : r ∈ (w.step sdk e).replayed) : r ∈ w.replayed ∨ Replays w e r := by
  have he := step_effect sdk w e
  generalize w.step sdk e = w' at he hr
  cases he with
  | idle | start | crash | cancel | configure | poll => exact Or.inl hr
  | main ok q w' hq hmain =>
    cases hmain with
    | replayCommit p rest changed unknown hm =>
      rcases List.mem_append.1 hr with hr | hr
      · exact Or.inl hr
      · rw [List.mem_singleton.1 hr]
        exact Or.inr ⟨q, rest, changed, unknown, hq, hm, rfl⟩
    | replayStage | restoredUnknown | beginL1 | endL1 | beginL2 | endL2 | markDone | failAt =>
      cases ok <;> exact Or.inl hr
    | wait | persist | persisted | newFails | replayUnknown | restored | waitForSeed | ready | pushSeed
    | seeded | lock | startChain | fail => exact Or.inl hr
  | task i te q t t' w' queue hq hi htask =>
    cases htask with
    | clear p ok | clearLast p ok => cases ok <;> exact Or.inl hr
    | save | stop | giveUp | broadcast | commit | commitFail => exact Or.inl hr

/-- A process that starts was starting before the step, or is new. -/
theorem step_starting {q' : Proc Hash} (hq' : (w.step sdk e).proc = some q')
    (hst : q'.main.starting = true) :
    (w.proc = none ∧ q'.tasks = [] ∧ q'.main.records = []) ∨
      ∃ q, w.proc = some q ∧ q.main.starting = true ∧ (q.tasks = [] → q'.tasks = []) ∧
        ∀ p ∈ q'.main.records, p ∈ q.main.records ∨ p ∈ w.store.loadPending := by
  have he := step_effect sdk w e
  generalize w.step sdk e = w' at he hq'
  cases he with
  | idle => exact Or.inr ⟨q', hq', hst, id, fun p hp => Or.inl hp⟩
  | start o initial hw =>
    cases hq'
    exact Or.inl ⟨hw, rfl, rfl⟩
  | crash => cases hq'
  | cancel q hq =>
    cases hq'
    exact Or.inr ⟨q, hq, hst, id, fun p hp => Or.inl hp⟩
  | configure u q q₁ hq hnew hc =>
    cases hq'
    obtain ⟨-, n, f, m, rfl⟩ := configure_ok hc
    exact absurd hst (by rw [hnew]; simp)
  | poll us q hq hm =>
    cases hq'
    cases hst
  | main ok q w' hq hmain =>
    obtain ⟨hst₀, htasks, hrec⟩ := hmain.of_starting hq hq' hst
    exact Or.inr ⟨q, hq, hst₀, fun h => htasks.trans h, hrec⟩
  | task i te q t t' w' queue hq hi htask =>
    cases hq'
    refine Or.inr ⟨q, hq, hst, fun h => ?_, fun p hp => Or.inl hp⟩
    rw [h] at hi
    cases hi

end Step

/-- What is in the file, or about to be replayed, is not settled, and so was everything
when it was replayed. -/
structure Traced (sdk : SDK Hash) (s : Store Hash) (es : List (Event Hash)) (w : World Hash) :
    Prop where
  pending : ∀ p ∈ w.store.loadPending, Unsettled sdk s es p
  records : ∀ q, w.proc = some q → ∀ p ∈ q.main.records, Unsettled sdk s es p
  idle : ∀ q, w.proc = some q → q.main.starting = true → q.tasks = []
  replayed : ∀ p ∈ w.replayed, ReplayedUnsettled sdk s es p

/-- **Every step keeps the account of the attempts.** -/
theorem Traced.step {s : Store Hash} {es : List (Event Hash)} {w : World Hash}
    (hw : w = (World.init s).run sdk es) (h : Traced sdk s es w) (e : Event Hash) :
    Traced sdk s (es ++ [e]) (w.step sdk e) where
  pending p hp := by
    have hclears := not_clears hp
    rcases step_pending hp with hp | hp
    · exact .later (h.pending p hp) (hw ▸ hclears)
    · exact .saved (hw ▸ hp)
  records q' hq' p hp := by
    have hst : q'.main.starting = true := by
      by_contra hst
      rw [Main.records_eq_nil (by simpa using hst)] at hp
      cases hp
    rcases step_starting hq' hst with ⟨-, -, hnil⟩ | ⟨q, hq, hstart, -, hrec⟩
    · rw [hnil] at hp
      cases hp
    · -- a start has no goroutines, so the step clears nothing
      have hclears : ¬Clears w e p.txID := by
        rintro ⟨q₁, i, t, r, hq₁, hi, -⟩
        obtain rfl := Option.some.inj (hq.symm.trans hq₁)
        rw [h.idle q hq hstart] at hi
        cases hi
      exact .later ((hrec p hp).elim (h.records q hq p) (h.pending p)) (hw ▸ hclears)
  idle q' hq' hst := by
    rcases step_starting hq' hst with ⟨-, htasks, -⟩ | ⟨q, hq, hstart, htasks, -⟩
    · exact htasks
    · exact htasks (h.idle q hq hstart)
  replayed p hp := by
    rcases step_replayed hp with hp | hp
    · exact (h.replayed p hp).later e
    · obtain ⟨q, rest, changed, unknown, hq, hm, -⟩ := id hp
      have hu := h.records q hq p (by rw [hm]; exact List.mem_cons_self)
      exact ⟨es, e, [], rfl, hw ▸ hp, hu⟩

theorem traced_run (sdk : SDK Hash) (s : Store Hash) (es : List (Event Hash)) :
    Traced sdk s es ((World.init s).run sdk es) := by
  have h0 : Traced sdk s [] (World.init s) :=
    ⟨fun p hp => .found hp, by rintro q ⟨⟩, by rintro q ⟨⟩, fun p hp => (List.not_mem_nil hp).elim⟩
  exact run_history h0 (fun es e h => h.step rfl e) es

/-- **Every stored UTXO** was imported, or is an output of a committed transaction that
the network accepted, or of one that a restart replayed while its last attempt was not
settled: not sent, not answered, or answered with an error and the record not yet
removed. -/
theorem stored_provenance (sdk : SDK Hash) (s : Store Hash) (es : List (Event Hash)) :
    ∀ u ∈ ((World.init s).run sdk es).store.loadAll,
      u ∈ ((World.init s).run sdk es).imported ∨
        ∃ p ∈ ((World.init s).run sdk es).committed, u ∈ p.created ∧
          (p ∈ ((World.init s).run sdk es).accepted ∨ ReplayedUnsettled sdk s es p) := by
  have h0 : Provenance (World.init s) :=
    ⟨fun u hu => Or.inl hu, fun p hp => (List.not_mem_nil hp).elim, by rintro q ⟨⟩⟩
  have h : Provenance ((World.init s).run sdk es) :=
    Along.inv (C := fun _ _ => True) (fun w e hw _ => hw.step e) (Along.of_forall fun _ _ _ => trivial)
      h0
  have htrace := traced_run sdk s es
  intro u hu
  rcases h.stored u hu with hi | ⟨p, hp, hup⟩
  · exact Or.inl hi
  · exact Or.inr ⟨p, hp, hup, (h.committed p hp).imp_right (htrace.replayed p)⟩

/-- A process crashes after it has written the record of the L1 fanout and before it
broadcasts it; the next one replays the record. -/
def Concrete.unsentRun : List (Event Bytes) :=
  .start (options 7 4 2) [funding 0 1000] :: List.replicate 6 (.main true) ++
    [.task 0 (.save true 1), .crash] ++ startup (options 7 4 2) 4

open Concrete in
theorem stored_provenance_replayed :
    ∃ u ∈ ((World.init Store.empty).run plainSDK unsentRun).store.loadAll,
      u ∈ ((World.init Store.empty).run plainSDK unsentRun).imported ∨
        ∃ p ∈ ((World.init Store.empty).run plainSDK unsentRun).committed, u ∈ p.created ∧
          (p ∈ ((World.init Store.empty).run plainSDK unsentRun).accepted ∨
            ReplayedUnsettled plainSDK Store.empty unsentRun p) := by
  have hne : ((World.init Store.empty).run plainSDK unsentRun).store.loadAll ≠ [] := by
    decide +kernel
  obtain ⟨u, hu⟩ := List.exists_mem_of_ne_nil _ hne
  exact ⟨u, hu, stored_provenance plainSDK Store.empty unsentRun u hu⟩

open Concrete in
/-- `New` has returned, nothing was ever sent, and the store holds outputs that were
neither imported nor created by an accepted transaction. -/
theorem replay_of_unsent :
    (((World.init Store.empty).run plainSDK unsentRun).proc.map Proc.main) = some .ready ∧
      ((World.init Store.empty).run plainSDK unsentRun).sent = [] ∧
      ¬∀ u ∈ ((World.init Store.empty).run plainSDK unsentRun).store.loadAll,
        u ∈ ((World.init Store.empty).run plainSDK unsentRun).imported ∨
          ∃ p ∈ ((World.init Store.empty).run plainSDK unsentRun).accepted, u ∈ p.created := by
  decide +kernel

end TxGen
