import TxGen.Proof.Steps

/-!
# The invariant of every run

`Inv`: the store and the history form a `Ledger`, and the running process, if any,
is where its program point says (`ProcOK`): while `New` restores, the queue and the
records still to replay are those of the store; afterwards the process has custody
of the store. It holds in every state of every run in which the UTXO source returns
new outpoints (`SourceOK`), whatever fails and whenever the process crashes.
-/

namespace TxGen

open Lib
open scoped List

variable {Hash : Type} {sdk : SDK Hash}

/-! ## Steps of spending goroutines -/

/-- What a step leaves of a goroutine: a fanout keeps what it spends and into how
many outputs, and a chain never puts its UTXO back on the queue. -/
structure TaskMove (a a' : Task Hash) : Prop where
  kind : a'.kind = a.kind
  n : a'.n = a.n
  utxo : a.kind ≠ .sustain → a'.utxo = a.utxo
  requeued : a.kind = .sustain → a'.requeued = true → a.requeued = true

theorem afterCommit_move (t : Task Hash) (p : PendingBroadcast Hash) :
    TaskMove t (t.afterCommit p) := by
  unfold Task.afterCommit
  split_ifs with hk
  · split
    · split_ifs
      · exact ⟨rfl, rfl, fun _ => rfl, fun _ h => by cases h⟩
      · exact ⟨rfl, rfl, fun h => absurd hk h, fun _ h => by cases h⟩
    · exact ⟨rfl, rfl, fun _ => rfl, fun _ h => by cases h⟩
  · exact ⟨rfl, rfl, fun _ => rfl, fun _ h => by cases h⟩

theorem TaskEffect.move {w w' : World Hash} {q : Proc Hash} {t t' : Task Hash} {e : TaskEvent}
    {queue : List UTXO} (h : TaskEffect sdk w q t e w' queue t') : TaskMove t t' := by
  cases h with
  | commit p => exact afterCommit_move t p
  | giveUp err _ _ hk => exact ⟨rfl, rfl, fun _ => rfl, fun h => absurd h hk⟩
  | clearLast p ok _ hk => exact ⟨rfl, rfl, fun _ => rfl, fun h => absurd h hk⟩
  | broadcast p o _ =>
    refine ⟨rfl, rfl, fun _ => rfl, fun _ h => ?_⟩
    cases o <;> cases h
  | save | stop | clear | commitFail => exact ⟨rfl, rfl, fun _ => rfl, fun _ h => by cases h⟩

/-- **A step of a goroutine keeps the ledger and the custody of the store.** -/
theorem TaskEffect.inv {w w' : World Hash} {q : Proc Hash} {i : ℕ} {t t' : Task Hash}
    {e : TaskEvent} {queue : List UTXO} (h : TaskEffect sdk w q t e w' queue t')
    (hinj : Function.Injective sdk.txHash) (hf : Fresh sdk w'.imported w'.committed)
    (hL : Ledger sdk w.store w.imported w.committed) (hC : Custody sdk w.store q)
    (hi : q.tasks[i]? = some t) :
    Ledger sdk w'.store w'.imported w'.committed ∧
      Custody sdk w'.store { q with queue, tasks := q.tasks.set i t' } := by
  have htm := List.mem_of_getElem? hi
  have hkeep := fun p (hp : p ∈ w.store.loadPending) =>
    (Or.inl hp : p ∈ w.store.loadPending ∨ t.Owns sdk q.mode p)
  -- a parent that is pushed back moves from the task to the queue
  have hpush : ∀ err : FanoutError, t.holds = [t.utxo] →
      Queue.push q.queue t.utxo ++ ({ t with pc := .requeued err } : Task Hash).holds ~
        q.queue ++ t.holds := by
    intro err hh
    rw [hh, Task.holds, List.append_nil]
    exact (Queue.push_perm _ _).trans (List.perm_append_singleton _ _).symm
  cases h with
  | save p savedAt hpc hb hid =>
    have ha : t.accepted = false := by rw [Task.accepted, hpc]
    obtain ⟨raw, hraw⟩ := Task.build_ok hb
    have hown := hC.txID_of_spent hi ha hb
    refine ⟨hL.savePending (hraw.withSavedAt savedAt) (hC.durable t htm ha) hid hown, ?_⟩
    refine hC.keep hi ha (.saved p) t.attempt rfl ?_ ?_ rfl ?_
    · rw [Task.holds, Task.holds, hpc]
    · intro r hr
      cases hr
      exact ⟨hb, hid⟩
    · intro r hr
      rcases Store.mem_savePending.1 hr with rfl | ⟨-, hr⟩
      · exact Or.inr ⟨ha, p, savedAt, hb, rfl⟩
      · exact Or.inl hr
  | stop _ hpc hk =>
    have ha : t.accepted = false := by rw [Task.accepted, hpc]
    refine ⟨hL, hC.keep hi ha .stopped t.attempt rfl ?_ (fun r hr => by cases hr) rfl hkeep⟩
    rw [Task.holds, Task.holds, hpc]
  | giveUp _ err hpc hk =>
    have ha : t.accepted = false := by rw [Task.accepted, hpc]
    exact ⟨hL, hC.keep hi ha (.requeued err) t.attempt rfl
      (hpush err (by rw [Task.holds, hpc])) (fun r hr => by cases hr) rfl hkeep⟩
  | broadcast p o hpc =>
    have ha : t.accepted = false := by rw [Task.accepted, hpc]
    have hrec := hC.records t htm p (by rw [Task.record, hpc]; rfl)
    refine ⟨hL, hC.keep hi ha (if o = Outcome.accepted then .accepted p else .rejected p) t.attempt
      ?_ ?_ ?_ rfl hkeep⟩
    · cases o <;> rfl
    · rw [Task.holds, Task.holds, hpc]
      cases o <;> rfl
    · intro r hr
      cases o <;> cases hr <;> exact hrec
  | clear p ok attempt hpc =>
    have ha : t.accepted = false := by rw [Task.accepted, hpc]
    have hheld : q.queue ++ ({ t with pc := .wait, attempt } : Task Hash).holds ~
        q.queue ++ t.holds := by
      rw [Task.holds, Task.holds, hpc]
    cases ok with
    | true =>
      exact ⟨hL.clearPending p.txID, hC.keep hi ha .wait attempt rfl hheld (fun r hr => by cases hr)
        rfl fun r hr => Or.inl (Store.mem_clearPending.1 hr).2⟩
    | false =>
      exact ⟨hL, hC.keep hi ha .wait attempt rfl hheld (fun r hr => by cases hr) rfl hkeep⟩
  | clearLast p ok hpc hk =>
    have ha : t.accepted = false := by rw [Task.accepted, hpc]
    have hheld := hpush .broadcast (by rw [Task.holds, hpc])
    cases ok with
    | true =>
      exact ⟨hL.clearPending p.txID, hC.keep hi ha _ t.attempt rfl hheld (fun r hr => by cases hr)
        rfl fun r hr => Or.inl (Store.mem_clearPending.1 hr).2⟩
    | false =>
      exact ⟨hL, hC.keep hi ha _ t.attempt rfl hheld (fun r hr => by cases hr) rfl hkeep⟩
  | commit p hpc =>
    have hrec : t.record = some p := by rw [Task.record, hpc]
    obtain ⟨hb, hid⟩ := hC.records t htm p hrec
    have ha := Task.accepted_of_record hrec
    obtain ⟨raw, hraw⟩ := Task.build_ok hb
    exact ⟨hL.commit hinj hf hraw (hC.durable t htm ha) hid (hC.txID_of_spent hi ha hb),
      hC.commit hL hinj hf hi hrec⟩
  | commitFail p hpc =>
    have ha : t.accepted = false := by rw [Task.accepted, hpc]
    refine ⟨hL, hC.keep hi ha .stopped t.attempt rfl ?_ (fun r hr => by cases hr) rfl hkeep⟩
    rw [Task.holds, Task.holds, hpc]

/-! ## Program points -/

/-- The outputs `us` have distinct outpoints, none of them that of an output of
`kn`. -/
def NewOutputs (sdk : SDK Hash) (kn us : List UTXO) : Prop :=
  (us.map sdk.outpoint).Nodup ∧ ∀ u ∈ us, ∀ v ∈ kn, sdk.outpoint v ≠ sdk.outpoint u

/-- `replayPending` stands before the records `rest`. -/
structure Replaying (s : Store Hash) (q : Proc Hash) (rest : List (PendingBroadcast Hash))
    (changed : Bool) (unknown : ℕ) : Prop where
  tasks : q.tasks = []
  queue : changed = false → q.queue ~ s.loadAll
  rest : rest ~ s.loadPending
  unknown : unknown = 0

/-- What holds of the process and the store at each point of the main goroutine;
`kn` are the known outputs. -/
def ProcOK (sdk : SDK Hash) (s : Store Hash) (kn : List UTXO) (q : Proc Hash) : Prop :=
  match q.main with
  | .persist rest => q.tasks = [] ∧
      (((∀ u ∈ rest, u ∈ s.loadAll) ∧ q.queue ~ s.loadAll) ∨
        (s.loadPending = [] ∧ q.queue ~ s.loadAll ++ rest ∧ NewOutputs sdk kn rest))
  | .replay rest changed unknown => Replaying s q rest changed unknown
  | .replayStage _ rest changed unknown => Replaying s q rest changed unknown
  | .ready => Idle s q
  | .waitForSeed => Idle s q ∧ q.queue = []
  | .pushSeed rest => Idle s q ∧ NewOutputs sdk kn rest
  | .lock _ => Idle s q
  | .full | .l2Start | .markDone => Idle s q ∧ q.bootstrapLocked = true
  | .l1 => Custody sdk s q ∧ q.bootstrapLocked = true ∧ ∃ t, q.tasks = [t] ∧ t.kind = .l1
  | .l2 => Custody sdk s q ∧ q.bootstrapLocked = true ∧ ∀ t ∈ q.tasks, t.kind = .l2
  | .chains => Custody sdk s q ∧ q.bootstrapLocked = true ∧
      ∀ t ∈ q.tasks, t.kind = .sustain ∧ t.requeued = false
  | .failed _ => q.tasks = []

/-- **The invariant.** -/
structure Inv (sdk : SDK Hash) (w : World Hash) : Prop where
  ledger : Ledger sdk w.store w.imported w.committed
  proc : ∀ q, w.proc = some q → ProcOK sdk w.store (known w.imported w.committed) q

section Phases

variable {s : Store Hash} {kn : List UTXO} {q : Proc Hash}

/-- A process with a spending goroutine has custody of the store. -/
theorem ProcOK.custody (h : ProcOK sdk s kn q) {i : ℕ} {t : Task Hash} (hi : q.tasks[i]? = some t) :
    Custody sdk s q := by
  have hne : q.tasks ≠ [] := by intro h0; rw [h0] at hi; simp at hi
  unfold ProcOK at h
  split at h
  case h_1 => exact absurd h.1 hne
  case h_2 | h_3 | h_4 | h_7 => exact absurd h.tasks hne
  case h_5 | h_6 | h_8 | h_9 | h_10 => exact absurd h.1.tasks hne
  case h_11 | h_12 | h_13 => exact h.1
  case h_14 => exact absurd h hne

/-- A step of a goroutine leaves the main goroutine where it is. -/
theorem ProcOK.move {s' : Store Hash} {kn' : List UTXO} (h : ProcOK sdk s kn q) {i : ℕ}
    {t t' : Task Hash} (hi : q.tasks[i]? = some t) (hm : TaskMove t t') {queue : List UTXO}
    (hC : Custody sdk s' { q with queue, tasks := q.tasks.set i t' }) :
    ProcOK sdk s' kn' { q with queue, tasks := q.tasks.set i t' } := by
  have hne : q.tasks ≠ [] := by intro h0; rw [h0] at hi; simp at hi
  have htm := List.mem_of_getElem? hi
  unfold ProcOK at h ⊢
  dsimp only
  split at h
  case h_1 => exact absurd h.1 hne
  case h_2 | h_3 | h_4 | h_7 => exact absurd h.tasks hne
  case h_5 | h_6 | h_8 | h_9 | h_10 => exact absurd h.1.tasks hne
  case h_11 =>
    obtain ⟨-, hlock, a, ha, hk⟩ := h
    rw [ha] at hi htm ⊢
    have hi0 : i = 0 := by
      have := (List.getElem?_eq_some_iff.1 hi).1
      simpa using this
    subst hi0
    cases hi
    refine ⟨by rwa [ha] at hC, hlock, t', rfl, hm.kind.trans hk⟩
  case h_12 => exact ⟨hC, h.2.1, forall_set h.2.2 (hm.kind.trans (h.2.2 t htm))⟩
  case h_13 =>
    refine ⟨hC, h.2.1, forall_set h.2.2 ?_⟩
    obtain ⟨hk, hr⟩ := h.2.2 t htm
    refine ⟨hm.kind.trans hk, ?_⟩
    by_contra hreq
    rw [hm.requeued hk (by simpa using hreq)] at hr
    cases hr
  case h_14 => exact absurd h hne

end Phases

/-! ## Steps of the main goroutine -/

section Main

variable {w : World Hash} {q : Proc Hash}

theorem Idle.setStage {s : Store Hash} (h : Idle s q) (st : Stage) : Idle (s.setStage st) q :=
  ⟨h.tasks, h.queue, h.pending⟩

theorem NewOutputs.tail {imported : List UTXO} {committed : List (PendingBroadcast Hash)} {u : UTXO}
    {us : List UTXO} (h : NewOutputs sdk (known imported committed) (u :: us)) :
    NewOutputs sdk (known (imported ++ [u]) committed) us := by
  obtain ⟨hn, hk⟩ := h
  rw [List.map_cons, List.nodup_cons] at hn
  refine ⟨hn.2, fun x hx v hv => ?_⟩
  have hv' : v ∈ known imported committed ∨ v = u := by
    rcases mem_known.1 hv with hv | hv
    · rcases List.mem_append.1 hv with hv | hv
      · exact Or.inl (mem_known.2 (Or.inl hv))
      · exact Or.inr (List.mem_singleton.1 hv)
    · exact Or.inl (mem_known.2 (Or.inr hv))
  rcases hv' with hv | rfl
  · exact hk x (List.mem_cons_of_mem _ hx) v hv
  · intro he
    exact hn.1 (he ▸ List.mem_map_of_mem hx)

/-- Saving a UTXO that the store holds changes nothing. -/
theorem importUTXO_of_mem {u : UTXO} (hu : u ∈ w.store.loadAll) : w.importUTXO u = w := by
  have hs : w.store.saveUTXO u = w.store := by
    have : w.store.utxos.insert u = w.store.utxos := Table.insert_of_mem hu
    rw [Store.saveUTXO, this]
  rw [World.importUTXO, hs, if_pos hu]

/-- **A new UTXO is imported.** -/
theorem importUTXO_new (hL : Ledger sdk w.store w.imported w.committed) {u : UTXO}
    (hnew : ∀ v ∈ known w.imported w.committed, sdk.outpoint v ≠ sdk.outpoint u) :
    (w.importUTXO u).imported = w.imported ++ [u] ∧
      Ledger sdk (w.importUTXO u).store (w.imported ++ [u]) w.committed ∧
      (w.importUTXO u).store.loadAll ~ u :: w.store.loadAll := by
  have hu : u ∉ w.store.loadAll := fun h => hnew u (hL.known_of_stored h) rfl
  refine ⟨if_neg hu, hL.saveUTXO hnew, ?_⟩
  exact Table.values_insert fun x hx hk =>
    hnew x (hL.known_of_stored hx) (outpoint_of_key hk)

theorem Inv.setProc_of (hL : Ledger sdk w.store w.imported w.committed)
    (hq : ProcOK sdk w.store (known w.imported w.committed) q) : Inv sdk (w.setProc q) :=
  ⟨hL, fun q' h' => by cases h'; exact hq⟩

theorem Inv.exit_of (hL : Ledger sdk w.store w.imported w.committed) : Inv sdk w.exit :=
  ⟨hL, fun q' h' => by cases h'⟩

theorem Inv.fail_of (hL : Ledger sdk w.store w.imported w.committed) (e : RunError) :
    Inv sdk (w.fail q e) := Inv.setProc_of hL rfl

theorem writeStage_ledger (hL : Ledger sdk w.store w.imported w.committed) (ok : Bool)
    (st : Stage) :
    Ledger sdk (w.writeStage ok st).store (w.writeStage ok st).imported
      (w.writeStage ok st).committed := by
  cases ok with
  | false => exact hL
  | true => exact hL.setStage st

theorem writeStage_idle (h : Idle w.store q) (ok : Bool) (st : Stage) :
    Idle (w.writeStage ok st).store q := by
  cases ok with
  | false => exact h
  | true => exact h.setStage st

theorem Idle.congr {s : Store Hash} {q q' : Proc Hash} (h : Idle s q) (ht : q'.tasks = q.tasks)
    (hq : q'.queue = q.queue) : Idle s q' :=
  ⟨ht.trans h.tasks, by rw [hq]; exact h.queue, h.pending⟩

/-- `New` saves an initial UTXO. -/
theorem persist_inv (hL : Ledger sdk w.store w.imported w.committed) {u : UTXO} {rest : List UTXO}
    (hm : q.main = .persist (u :: rest)) (hq : ProcOK sdk w.store (known w.imported w.committed) q) :
    Inv sdk ((w.importUTXO u).setProc { q with main := .persist rest }) := by
  unfold ProcOK at hq
  rw [hm] at hq
  obtain ⟨ht, ⟨hin, hqueue⟩ | ⟨hpend, hqueue, hnew⟩⟩ := hq
  · rw [importUTXO_of_mem (hin u List.mem_cons_self)]
    exact Inv.setProc_of hL
      ⟨ht, Or.inl ⟨fun v hv => hin v (List.mem_cons_of_mem _ hv), hqueue⟩⟩
  · obtain ⟨himp, hL', hall⟩ := importUTXO_new hL (hnew.2 u List.mem_cons_self)
    refine ⟨by rw [← himp] at hL'; exact hL', ?_⟩
    rintro q' ⟨⟩
    refine ⟨ht, Or.inr ⟨hpend, ?_, ?_⟩⟩
    · exact hqueue.trans (List.perm_middle.trans (hall.symm.append_right rest))
    · show NewOutputs sdk (known (w.importUTXO u).imported w.committed) rest
      rw [himp]
      exact hnew.tail

/-- The replay commits a record. -/
theorem replay_inv (hL : Ledger sdk w.store w.imported w.committed)
    (hinj : Function.Injective sdk.txHash) {p : PendingBroadcast Hash}
    {rest : List (PendingBroadcast Hash)} {changed : Bool} {unknown : ℕ}
    (hf : Fresh sdk w.imported (w.committed ++ [p]))
    (hq : Replaying w.store q (p :: rest) changed unknown) {q' : Proc Hash} (ht : q'.tasks = q.tasks)
    (hm : q'.main = .replay rest true unknown ∨ ∃ st, q'.main = .replayStage st rest true unknown) :
    Inv sdk ({ w.commit p with replayed := w.replayed ++ [p] }.setProc q') := by
  have hp : p ∈ w.store.loadPending := hq.rest.mem_iff.1 List.mem_cons_self
  have hid := hL.pending_txID p hp
  obtain ⟨u, raw, hb, hu⟩ := hL.pending_built p hp
  have hown : ∀ r ∈ w.store.loadPending, r.spent = [u] → r.txID = p.txID := by
    intro r hr hs
    rw [hL.pending_inj r hr p hp (by rw [hs, hb.spent])]
  have hrest : rest ~ (w.commit p).store.loadPending := by
    have herase : (w.commit p).store.loadPending = (w.store.pending.erase p.txID).values := by
      simp only [World.commit, Store.commitPending, if_neg hid]
      rfl
    rw [herase]
    exact (hq.rest.trans (Table.values_erase hp)).cons_inv
  have hrep : Replaying (w.commit p).store q' rest true unknown :=
    ⟨ht.trans hq.tasks, by simp, hrest, hq.unknown⟩
  refine ⟨hL.commit hinj hf hb hu hid hown, ?_⟩
  rintro r ⟨⟩
  unfold ProcOK
  rcases hm with hm | ⟨st, hm⟩ <;> rw [hm] <;> exact hrep

/-- `restore` returns. -/
theorem finishRestore_inv (hL : Ledger sdk w.store w.imported w.committed) {changed : Bool}
    {unknown : ℕ} (hq : Replaying w.store q [] changed unknown) :
    Inv sdk (w.finishRestore q changed) := by
  refine Inv.setProc_of hL ⟨hq.tasks, ?_, hq.rest.symm.eq_nil⟩
  cases changed with
  | false => exact hq.queue rfl
  | true => exact Queue.restore_perm _

/-- The funding UTXO is pushed and saved. -/
theorem pushSeed_inv (hL : Ledger sdk w.store w.imported w.committed) {u : UTXO} {rest : List UTXO}
    (hq : Idle w.store q) (hnew : NewOutputs sdk (known w.imported w.committed) (u :: rest)) :
    Inv sdk ((w.importUTXO u).setProc
      { q with queue := Queue.push q.queue u, main := .pushSeed rest }) := by
  obtain ⟨himp, hL', hall⟩ := importUTXO_new hL (hnew.2 u List.mem_cons_self)
  refine ⟨by rw [← himp] at hL'; exact hL', ?_⟩
  rintro q' ⟨⟩
  refine ⟨⟨hq.tasks, ?_, hq.pending⟩, ?_⟩
  · exact (Queue.push_perm _ _).trans ((hq.queue.cons u).trans hall.symm)
  · show NewOutputs sdk (known (w.importUTXO u).imported w.committed) rest
    rw [himp]
    exact hnew.tail

/-- The parameters are fixed and the bootstrap dispatched. -/
theorem dispatch_ok {s : Store Hash} {kn : List UTXO} (hq : Idle s q) (hlock : q.bootstrapLocked = true)
    {st : Stage} {queued n l : ℤ} (hm : q.main = dispatch st queued n l) : ProcOK sdk s kn q := by
  unfold ProcOK
  rcases dispatch_cases Hash st queued n l with h | h | h | h | ⟨e, h⟩ <;>
    rw [hm, h]
  · exact ⟨hq.custody, hlock, fun t ht => by rw [hq.tasks] at ht; cases ht⟩
  · exact ⟨hq, hlock⟩
  · exact ⟨hq, hlock⟩
  · exact ⟨hq, hlock⟩
  · exact hq.tasks

theorem beginL1_inv (hL : Ledger sdk w.store w.imported w.committed) (hq : Idle w.store q)
    (hlock : q.bootstrapLocked = true) : Inv sdk (w.beginL1 q) := by
  unfold World.beginL1
  split
  · exact Inv.fail_of hL _
  · rename_i seed rest hpop
    refine Inv.setProc_of hL ⟨hq.start ?_ ?_ hlock, hlock, _, rfl, rfl⟩
    · exact (List.perm_append_singleton _ _).trans (Queue.pop_perm hpop).symm
    · intro t ht
      rw [List.mem_singleton.1 ht]

theorem beginL2_inv (hL : Ledger sdk w.store w.imported w.committed) (hq : Idle w.store q)
    (hlock : q.bootstrapLocked = true) : Inv sdk (w.beginL2 q) := by
  unfold World.beginL2
  dsimp only
  split_ifs
  · exact Inv.fail_of hL _
  · exact Inv.fail_of hL _
  · refine Inv.setProc_of hL ⟨hq.start ?_ ?_ hlock, hlock, ?_⟩
    · have hmap : ∀ (us : List UTXO) (f : ℕ → UTXO → Task Hash), (∀ i u, (f i u).utxo = u) →
          (us.mapIdx f).map Task.utxo = us := by
        intro us f hf
        apply List.ext_getElem <;> simp [hf]
      show [] ++ List.map Task.utxo _ ~ q.queue
      rw [List.nil_append, hmap _ _ (fun _ _ => rfl)]
      exact Queue.drain_perm _
    · intro t ht
      obtain ⟨i, -, rfl⟩ := List.mem_mapIdx.1 ht
      rfl
    · intro t ht
      obtain ⟨i, -, rfl⟩ := List.mem_mapIdx.1 ht
      rfl

/-- When every goroutine has committed, no record is pending. -/
theorem Custody.pending_nil {s : Store Hash} (hC : Custody sdk s q)
    (hall : ∀ t ∈ q.tasks, t.accepted = true) : s.loadPending = [] := by
  rw [List.eq_nil_iff_forall_not_mem]
  intro p hp
  obtain ⟨t, htm, hown⟩ := hC.owner p hp
  have := hown.1
  rw [hall t htm] at this
  cases this

/-- When every goroutine has committed, the outputs are all there is beside the
queue. -/
theorem Custody.all_done {s : Store Hash} (hC : Custody sdk s q)
    (hall : ∀ t ∈ q.tasks, t.accepted = true) {q' : Proc Hash} (ht : q'.tasks = [])
    (hqueue : q'.queue ~ q.tasks.flatMap Task.outputs ++ q.queue) : Idle s q' := by
  have hholds : q.tasks.flatMap Task.holds = q.tasks.flatMap Task.outputs := by
    apply List.flatMap_congr
    intro t htm
    have ha := hall t htm
    unfold Task.accepted at ha
    unfold Task.holds Task.outputs
    split at ha <;> simp_all
  have hsync := hC.sync
  rw [hholds] at hsync
  exact ⟨ht, hqueue.trans (List.perm_append_comm.trans hsync), hC.pending_nil hall⟩

theorem endL1_inv (hI : Inv sdk w) (hC : Custody sdk w.store q) (hlock : q.bootstrapLocked = true)
    (ok : Bool) : Inv sdk (w.endL1 q ok) := by
  have hL := hI.ledger
  unfold World.endL1
  split
  · rename_i t ht
    split
    · rename_i outputs hpc
      refine Inv.setProc_of (writeStage_ledger hL ok _) ⟨writeStage_idle (hC.all_done ?_ rfl ?_) ok _, hlock⟩
      · intro a ha
        rw [ht, List.mem_singleton] at ha
        rw [ha, Task.accepted, hpc]
      · rw [ht, List.flatMap_cons, List.flatMap_nil, List.append_nil, Task.outputs, hpc]
        exact Queue.pushAll_perm _ _
    · exact Inv.fail_of hL _
    · exact Inv.fail_of hL _
    · exact hI
  · exact hI

theorem endL2_inv (hI : Inv sdk w) (hC : Custody sdk w.store q) (hlock : q.bootstrapLocked = true)
    (ok : Bool) : Inv sdk (w.endL2 q ok) := by
  have hL := writeStage_ledger hI.ledger ok
  unfold World.endL2
  dsimp only
  split_ifs with hend hall
  · refine Inv.setProc_of (hL _) ⟨Idle.custody ?_, hlock, fun t ht => by cases ht⟩
    refine writeStage_idle (hC.all_done ?_ rfl (Queue.pushAll_perm _ _)) ok _
    simpa using hall.1
  · exact Inv.fail_of (hL _) _
  · exact hI

theorem chains_inv (hI : Inv sdk w) (hC : Custody sdk w.store q) (hlock : q.bootstrapLocked = true)
    (hm : q.main = .chains) (hk : ∀ t ∈ q.tasks, t.kind = .sustain ∧ t.requeued = false) (ok : Bool) :
    Inv sdk (w.mainStep q ok) := by
  unfold World.mainStep
  rw [hm]
  dsimp only
  split
  · exact hI
  · rename_i u rest hpop
    refine Inv.setProc_of hI.ledger ⟨?_, hlock, ?_⟩
    · have := hC.startChain (fun t ht => (hk t ht).2) hlock (Queue.pop_perm hpop) 0
      rwa [hm] at this
    · intro t ht
      rcases List.mem_append.1 ht with ht | ht
      · exact hk t ht
      · rw [List.mem_singleton.1 ht]
        exact ⟨rfl, rfl⟩

/-- **A step of the main goroutine keeps the invariant.** -/
theorem mainStep_inv (hI : Inv sdk w) (hproc : w.proc = some q)
    (hinj : Function.Injective sdk.txHash) (ok : Bool)
    (hf : Fresh sdk (w.mainStep q ok).imported (w.mainStep q ok).committed) :
    Inv sdk (w.mainStep q ok) := by
  have hL := hI.ledger
  have hq := hI.proc q hproc
  have hq' := hq
  unfold ProcOK at hq
  unfold World.mainStep at hf ⊢
  -- `ProcOK` is split, not the step: each case then has what holds at its point
  split at hq
  case h_1 rest hm =>
    rw [hm] at hf ⊢
    cases rest with
    | nil =>
      refine Inv.setProc_of hL ⟨hq.1, ?_, List.perm_insertionSort _ _, rfl⟩
      rintro -
      rcases hq.2 with ⟨-, h⟩ | ⟨-, h, -⟩
      · exact h
      · rwa [List.append_nil] at h
    | cons u rest =>
      dsimp only
      split_ifs
      · exact persist_inv hL hm hq'
      · exact Inv.exit_of hL
  case h_2 rest changed unknown hm =>
    rw [hm] at hf ⊢
    cases rest with
    | nil =>
      dsimp only
      rw [if_pos hq.unknown]
      exact finishRestore_inv hL hq
    | cons p rest =>
      have hp : p ∈ w.store.loadPending := hq.rest.mem_iff.1 List.mem_cons_self
      -- a record of the ledger spends a UTXO, so it is replayed and never counted as unknown
      obtain ⟨u, raw, hb, -⟩ := hL.pending_built p hp
      have hspent : ¬(p.spent = [] ∧ p.created = []) := by simp [hb.spent]
      dsimp only at hf ⊢
      rw [if_neg hspent] at hf ⊢
      split_ifs at hf ⊢
      · refine replay_inv hL hinj hf hq rfl ?_
        cases p.stage with
        | none => exact Or.inl rfl
        | some st => exact Or.inr ⟨st, rfl⟩
      · exact Inv.exit_of hL
  case h_3 st rest changed unknown hm =>
    rw [hm]
    refine Inv.setProc_of (writeStage_ledger hL ok st) ?_
    cases ok <;> exact ⟨hq.tasks, hq.queue, hq.rest, hq.unknown⟩
  case h_4 hm =>
    rw [hm]
    dsimp only
    split_ifs with h0 hs
    · exact Inv.setProc_of hL ⟨hq.congr rfl rfl, h0.2⟩
    · exact Inv.fail_of hL _
    · exact Inv.setProc_of hL (hq.congr rfl rfl)
  case h_5 hm =>
    rw [hm]
    dsimp only
    split_ifs
    · exact Inv.fail_of hL _
    · exact hI
  case h_6 rest hm =>
    rw [hm]
    cases rest with
    | nil => exact Inv.setProc_of hL (hq.1.congr rfl rfl)
    | cons u rest =>
      dsimp only
      split_ifs
      · exact pushSeed_inv hL hq.1 hq.2
      · exact Inv.fail_of hL _
  case h_7 st hm =>
    rw [hm]
    exact Inv.setProc_of hL (dispatch_ok (hq.congr rfl rfl) rfl rfl)
  case h_8 hm =>
    rw [hm]
    exact beginL1_inv (writeStage_ledger hL ok _)
      ((writeStage_idle hq.1 ok _).congr rfl rfl) hq.2
  case h_9 hm =>
    rw [hm]
    exact beginL2_inv (writeStage_ledger hL ok _)
      ((writeStage_idle hq.1 ok _).congr rfl rfl) hq.2
  case h_10 hm =>
    rw [hm]
    refine Inv.setProc_of (writeStage_ledger hL ok _) ⟨?_, hq.2, ?_⟩
    · exact Idle.custody ((writeStage_idle hq.1 ok _).congr rfl rfl)
    · intro t ht
      have ht' : t ∈ q.tasks := ht
      rw [hq.1.tasks] at ht'
      cases ht'
  case h_11 hm =>
    rw [hm]
    exact endL1_inv hI hq.1 hq.2.1 ok
  case h_12 hm =>
    rw [hm]
    exact endL2_inv hI hq.1 hq.2.1 ok
  case h_13 hm => exact chains_inv hI hq.1 hq.2.1 hm hq.2.2 ok
  case h_14 e hm =>
    rw [hm]
    exact hI

end Main

/-! ## Runs -/

/-- The outputs `us` have distinct outpoints, none of them created or spent by a
committed transaction. -/
def Importable (sdk : SDK Hash) (w : World Hash) (us : List UTXO) : Prop :=
  (us.map sdk.outpoint).Nodup ∧
    ∀ p ∈ w.committed, ∀ v ∈ p.spent ++ p.created, ∀ u ∈ us, sdk.outpoint v ≠ sdk.outpoint u

/-- What the UTXO source returns is importable: when a process starts on an empty
store, and when it polls for the funding UTXO. -/
def SourceOK (sdk : SDK Hash) (w : World Hash) : Event Hash → Prop
  | .start _ initial => w.proc = none → w.store.loadAll = [] → Importable sdk w initial
  | .poll utxos => Importable sdk w utxos
  | _ => True

instance [DecidableEq Hash] (sdk : SDK Hash) (w : World Hash) (us : List UTXO) :
    Decidable (Importable sdk w us) := inferInstanceAs (Decidable (_ ∧ _))

instance [DecidableEq Hash] (sdk : SDK Hash) (w : World Hash) :
    ∀ e, Decidable (SourceOK sdk w e)
  | .start _ initial =>
    inferInstanceAs (Decidable (w.proc = none → w.store.loadAll = [] → Importable sdk w initial))
  | .poll utxos => inferInstanceAs (Decidable (Importable sdk w utxos))
  | .crash | .cancel | .configure _ | .main _ | .task _ _ => isTrue trivial

/-- When the store is empty, every known output was created or spent by a committed
transaction. -/
theorem Importable.newOutputs {w : World Hash} {us : List UTXO} (h : Importable sdk w us)
    (hL : Ledger sdk w.store w.imported w.committed) (hempty : w.store.loadAll = []) :
    NewOutputs sdk (known w.imported w.committed) us := by
  refine ⟨h.1, fun u hu v hv => ?_⟩
  rcases mem_known.1 hv with himp | ⟨p, hp, hc⟩
  · have hns : ¬Unspent w.imported w.committed v := by
      rw [← hL.stored v, hempty]
      exact List.not_mem_nil
    have hspent : ∃ p ∈ w.committed, v ∈ p.spent := by
      by_contra hno
      exact hns ⟨Or.inl himp, fun p hp hvp => hno ⟨p, hp, hvp⟩⟩
    obtain ⟨p, hp, hvp⟩ := hspent
    exact h.2 p hp v (List.mem_append_left _ hvp) u hu
  · exact h.2 p hp v (List.mem_append_right _ hc) u hu

theorem Fresh.of_grows {w w' : World Hash} (hg : Grows w w')
    (hf : Fresh sdk w'.imported w'.committed) : Fresh sdk w.imported w.committed :=
  fun u hu p hp => hf u (hg.imported hu) p (hg.committed hp)

theorem known_of_grows {w w' : World Hash} (hg : Grows w w') {u : UTXO}
    (hu : u ∈ known w.imported w.committed) : u ∈ known w'.imported w'.committed := by
  rcases mem_known.1 hu with hu | ⟨p, hp, hu⟩
  · exact mem_known.2 (Or.inl (hg.imported hu))
  · exact mem_known.2 (Or.inr ⟨p, hg.committed hp, hu⟩)

theorem ProcOK.configure {s : Store Hash} {kn : List UTXO} {q q' : Proc Hash} {u : BootstrapUpdate}
    (h : ProcOK sdk s kn q) (hc : q.configureBootstrap u = .ok q') : ProcOK sdk s kn q' := by
  obtain ⟨hf, n, f, m, rfl⟩ := configure_ok hc
  have hl : q.bootstrapLocked = false := by
    simp only [Proc.funded, Bool.or_eq_false_iff] at hf
    exact hf.1.1.1.1
  unfold ProcOK at h ⊢
  dsimp only
  split at h
  case h_1 => exact h
  case h_2 | h_3 => exact ⟨h.tasks, h.queue, h.rest, h.unknown⟩
  case h_4 | h_7 => exact h.congr rfl rfl
  case h_5 | h_6 => exact ⟨h.1.congr rfl rfl, h.2⟩
  case h_8 | h_9 | h_10 => rw [hl] at h; cases h.2
  case h_11 | h_12 | h_13 => rw [hl] at h; cases h.2.1
  case h_14 => exact h

theorem ProcOK.cancel {s : Store Hash} {kn : List UTXO} {q : Proc Hash} (h : ProcOK sdk s kn q) :
    ProcOK sdk s kn { q with ctxDone := true } := by
  unfold ProcOK at h ⊢
  dsimp only
  split at h
  case h_1 | h_14 => exact h
  case h_2 | h_3 => exact ⟨h.tasks, h.queue, h.rest, h.unknown⟩
  case h_4 | h_7 => exact h.congr rfl rfl
  case h_5 | h_6 | h_8 | h_9 | h_10 => exact ⟨h.1.congr rfl rfl, h.2⟩
  case h_11 | h_12 | h_13 =>
    exact ⟨⟨h.1.sync, h.1.records, h.1.owner, h.1.durable, h.1.distinct, h.1.unlocked⟩, h.2⟩

/-- A process starts. -/
theorem start_inv {w : World Hash} (hI : Inv sdk w) (o : Options Hash) {initial : List UTXO}
    (hs : w.startsWith initial = true)
    (hnew : w.store.loadAll = [] → NewOutputs sdk (known w.imported w.committed) initial) :
    Inv sdk { w with proc := some (Proc.new o w.store.loadAll initial), life := w.life + 1 } := by
  refine ⟨hI.ledger, ?_⟩
  rintro q ⟨⟩
  refine ⟨rfl, ?_⟩
  by_cases h0 : initial = []
  · left
    subst h0
    exact ⟨fun u hu => absurd hu List.not_mem_nil, Queue.restore_perm _⟩
  simp only [Proc.new, if_neg h0]
  have hperm := Queue.restore_perm initial
  by_cases hall : initial = w.store.loadAll
  · left
    exact ⟨fun u hu => hall ▸ hperm.mem_iff.1 hu, hall ▸ hperm⟩
  · right
    have hempty : w.store.loadAll = [] := by simpa [World.startsWith, h0, hall] using hs
    obtain ⟨hn, hk⟩ := hnew hempty
    refine ⟨?_, ?_, (hperm.map _).nodup_iff.2 hn, fun u hu => hk u (hperm.mem_iff.1 hu)⟩
    · rw [List.eq_nil_iff_forall_not_mem]
      intro p hp
      obtain ⟨u, raw, -, hu⟩ := hI.ledger.pending_built p hp
      rw [hempty] at hu
      cases hu
    · show Queue.restore initial ~ w.store.loadAll ++ Queue.restore initial
      rw [hempty, List.nil_append]

/-- A world with no pending broadcast, whose stored UTXOs have distinct outpoints. -/
theorem init_inv {s : Store Hash} (hpend : s.loadPending = [])
    (hdist : (s.loadAll.map sdk.outpoint).Nodup) : Inv sdk (World.init s) where
  ledger := {
    stored := fun u => by simp [World.init, Unspent]
    imported_inj := hdist
    committed_built := fun p hp => absurd hp List.not_mem_nil
    pending_txID := fun p hp => absurd hp (by simp [World.init, hpend])
    pending_built := fun p hp => absurd hp (by simp [World.init, hpend])
    pending_inj := fun p hp => absurd hp (by simp [World.init, hpend])
    balance := rfl }
  proc q hq := by cases hq

/-- **Every step keeps the invariant.** -/
theorem step_inv {w : World Hash} (hI : Inv sdk w) (hinj : Function.Injective sdk.txHash)
    {e : Event Hash} (hs : SourceOK sdk w e)
    (hf : Fresh sdk (w.step sdk e).imported (w.step sdk e).committed) : Inv sdk (w.step sdk e) := by
  have hL := hI.ledger
  unfold World.step at hf ⊢
  split at hf
  case h_1 o initial hp =>
    split_ifs with hsw
    · exact start_inv hI o hsw fun hempty => (hs hp hempty).newOutputs hL hempty
    · exact hI
  case h_2 => exact Inv.exit_of hL
  case h_3 q hq => exact Inv.setProc_of hL (hI.proc q hq).cancel
  case h_4 u q hq =>
    split_ifs
    · exact hI
    · split
      · exact hI
      · rename_i q' hc
        exact Inv.setProc_of hL ((hI.proc q hq).configure hc)
  case h_5 utxos q hq =>
    split
    · rename_i hm
      split_ifs
      · exact hI
      · have hp := hI.proc q hq
        unfold ProcOK at hp
        rw [hm] at hp
        have hempty : w.store.loadAll = [] := (hp.2 ▸ hp.1.queue).nil_eq.symm
        exact Inv.setProc_of hL ⟨hp.1.congr rfl rfl, Importable.newOutputs hs hL hempty⟩
    · exact hI
  case h_6 ok q hq => exact mainStep_inv hI hq hinj ok hf
  case h_7 i e q hq =>
    rcases taskStep_effect sdk w q i e with h | ⟨t, w', queue, t', hi, heff, h⟩
    · rw [h]
      exact hI
    · rw [h] at hf ⊢
      have hp := hI.proc q hq
      obtain ⟨hL', hC'⟩ := heff.inv hinj hf hL (hp.custody hi) hi
      exact Inv.setProc_of hL' (hp.move hi heff.move hC')
  case h_8 => exact hI

/-- **The invariant holds along every run.** -/
theorem run_inv (hinj : Function.Injective sdk.txHash) {w : World Hash} (h0 : Inv sdk w)
    {es : List (Event Hash)} (hs : Along (World.step sdk) (SourceOK sdk) w es)
    (hf : Fresh sdk (w.run sdk es).imported (w.run sdk es).committed) : Inv sdk (w.run sdk es) :=
  Along.inv_of_later (F := fun w => Fresh sdk w.imported w.committed) (I := Inv sdk)
    (fun w e => Fresh.of_grows (step_grows w e))
    (fun _ _ hI hs hf => step_inv hI hinj hs hf) hs h0 hf

/-! ## Restarts from the store -/

section Restores

variable {mode : Mode Hash}

/-- Every process is started with the mode and restores from the store. -/
def Restores (mode : Mode Hash) (w : World Hash) : Event Hash → Prop
  | .start o initial => o.mode = mode ∧ (initial = [] ∨ initial = w.store.loadAll)
  | _ => True

theorem Restores.sourceOK {w : World Hash} {e : Event Hash} (h : Restores mode w e)
    (sdk : SDK Hash) :
    SourceOK sdk w e ∨ ∃ us, e = .poll us := by
  cases e with
  | start o initial =>
    left
    intro _ hempty
    have h0 : initial = [] := by
      rcases h.2 with h | h
      · exact h
      · rw [h, hempty]
    rw [h0]
    exact ⟨List.nodup_nil, fun _ _ _ _ u hu => absurd hu List.not_mem_nil⟩
  | poll us => exact Or.inr ⟨us, rfl⟩
  | _ => exact Or.inl trivial

/-- What `New` saves at such a start is in the store. -/
theorem Restores.persist {w : World Hash} {o : Options Hash} {initial rest : List UTXO}
    (h : Restores mode w (.start o initial))
    (hr : (Proc.new o w.store.loadAll initial).main = .persist rest) :
    ∀ u ∈ rest, u ∈ w.store.loadAll := by
  intro u hu
  by_cases h0 : initial = []
  · simp only [Proc.new, if_pos h0] at hr
    cases hr
    cases hu
  · simp only [Proc.new, if_neg h0] at hr
    cases hr
    have hu' := (Queue.restore_perm initial).mem_iff.1 hu
    rwa [h.2.resolve_left h0] at hu'

end Restores

end TxGen
