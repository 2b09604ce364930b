import Mathlib.Algebra.BigOperators.Ring.Finset
import TxGen.Proof.Concrete
import TxGen.Proof.Fanout
import TxGen.Proof.Steps

/-!
# The L2 fanouts

`bootstrapL2` runs one fanout for each parent, all at once, and merges what they
return. `L2Run` says how far the fanouts are, whatever the order of their steps:
each keeps the parent and the size it was given, and the queue holds the parents of
those that were given up. With parents that are stored unspent outputs (`Unspents`)
the stored UTXOs follow the commits alone (`L2Store`). `l2_run` is both over any
schedule of the process.
-/

namespace TxGen

open Lib
open scoped List

variable {Hash : Type} {sdk : SDK Hash}

/-! ## Fanouts -/

namespace Task

/-- What a fanout is given: its kind, its parent and the number of outputs. -/
def job (t : Task Hash) : Kind × UTXO × ℤ := (t.kind, t.utxo, t.n)

/-- The record of a fanout is that of the transaction it builds, and its outputs are
those of that transaction. -/
def Ran (sdk : SDK Hash) (mode : Mode Hash) (t : Task Hash) : Prop :=
  match t.pc with
  | .saved p | .rejected p | .accepted p => t.build sdk mode = .ok p ∧ p.txID ≠ []
  | .done outputs => ∃ p, t.build sdk mode = .ok p ∧ outputs = p.created
  | _ => True

/-- The parent, when the fanout has put it back on the queue. -/
def given (t : Task Hash) : List UTXO := if t.requeued then [t.utxo] else []

/-- The parent, when the fanout is committed. -/
def used (t : Task Hash) : List UTXO := if t.accepted then [t.utxo] else []

variable {t : Task Hash} {ts : List (Task Hash)} {mode : Mode Hash} {u : UTXO}

theorem mem_given : u ∈ ts.flatMap given ↔ ∃ t ∈ ts, t.requeued = true ∧ u = t.utxo := by
  simp only [given, List.mem_flatMap, List.mem_ite_nil_right, List.mem_singleton]

theorem mem_used : u ∈ ts.flatMap used ↔ ∃ t ∈ ts, t.accepted = true ∧ u = t.utxo := by
  simp only [used, List.mem_flatMap, List.mem_ite_nil_right, List.mem_singleton]

theorem Ran.outputs (h : t.Ran sdk mode) (ha : t.accepted = true) :
    ∃ p, t.build sdk mode = .ok p ∧ t.outputs = p.created := by
  unfold Ran at h
  unfold accepted at ha
  unfold Task.outputs
  split at ha
  · rename_i hpc
    rw [hpc] at h
    exact h
  · cases ha

theorem outputs_of_not_accepted (h : t.accepted = false) : t.outputs = [] := by
  unfold accepted at h
  unfold outputs
  split at h
  · cases h
  · rfl

theorem accepted_of_mem_outputs (h : u ∈ t.outputs) : t.accepted = true := by
  by_contra ha
  rw [outputs_of_not_accepted (by simpa using ha)] at h
  exact absurd h List.not_mem_nil

end Task

/-- A fanout keeps its job and stays the fanout of the transaction it builds; its step
moves its parent to the queue at most once. -/
theorem TaskEffect.fanout {w w' : World Hash} {q : Proc Hash} {t t' : Task Hash} {e : TaskEvent}
    {queue : List UTXO} (h : TaskEffect sdk w q t e w' queue t') (hk : t.kind ≠ .sustain)
    (hr : t.Ran sdk q.mode) :
    t'.job = t.job ∧ t'.Ran sdk q.mode ∧ queue ++ t.given ~ q.queue ++ t'.given := by
  cases h with
  | save p savedAt hpc hb hid =>
    refine ⟨rfl, ⟨hb, hid⟩, ?_⟩
    simp [Task.given, Task.requeued, hpc]
  | stop e hpc hs => exact absurd hs hk
  | giveUp e err hpc =>
    refine ⟨rfl, trivial, ?_⟩
    have hpush := (Queue.push_perm q.queue t.utxo).trans (List.perm_append_singleton _ _).symm
    simpa [Task.given, Task.requeued, hpc] using hpush
  | broadcast p o hpc =>
    rw [Task.Ran, hpc] at hr
    refine ⟨rfl, ?_, ?_⟩
    · cases o <;> exact hr
    · cases o <;> simp [Task.given, Task.requeued, hpc]
  | clear p ok attempt hpc =>
    refine ⟨rfl, trivial, ?_⟩
    simp [Task.given, Task.requeued, hpc]
  | clearLast p ok hpc =>
    refine ⟨rfl, trivial, ?_⟩
    have hpush := (Queue.push_perm q.queue t.utxo).trans (List.perm_append_singleton _ _).symm
    simpa [Task.given, Task.requeued, hpc] using hpush
  | commit p hpc =>
    rw [Task.Ran, hpc] at hr
    rw [Task.afterCommit, if_neg hk]
    refine ⟨rfl, ⟨p, hr.1, rfl⟩, ?_⟩
    simp [Task.given, Task.requeued, hpc]
  | commitFail p hpc =>
    refine ⟨rfl, trivial, ?_⟩
    simp [Task.given, Task.requeued, hpc]

/-! ## A run of the fanouts -/

theorem Queue.drain_ne_nil {us : List UTXO} (h : us ≠ []) : Queue.drain us ≠ [] := by
  intro h0
  have hperm := Queue.drain_perm us
  rw [h0] at hperm
  exact h hperm.nil_eq.symm

/-- The fanouts `bootstrapL2` starts. -/
def l2Tasks (n : ℤ) (parents : List UTXO) : List (Task Hash) :=
  parents.mapIdx fun i parent => ⟨.l2, parent, l2FanoutSizeForParent n parents.length i, 1, .wait⟩

theorem l2Tasks_jobs (n : ℤ) (parents : List UTXO) :
    (l2Tasks n parents : List (Task Hash)).map Task.job = parents.mapIdx fun i parent =>
      (Kind.l2, parent, l2FanoutSizeForParent n parents.length i) := by
  apply List.ext_getElem?
  intro i
  rw [List.getElem?_map, l2Tasks, List.getElem?_mapIdx, List.getElem?_mapIdx]
  cases parents[i]? <;> rfl

/-- The fanouts of `parents` are running in the process `q`. -/
structure L2Run (sdk : SDK Hash) (m : Mode Hash) (n : ℤ) (parents : List UTXO) (q : Proc Hash) :
    Prop where
  main : q.main = .l2
  stage : q.stage = .l2Partial
  mode : q.mode = m
  numChains : q.numChains = n
  jobs : q.tasks.map Task.job = (l2Tasks n parents : List (Task Hash)).map Task.job
  ran : ∀ t ∈ q.tasks, t.Ran sdk m
  queue : q.queue ~ q.tasks.flatMap Task.given

namespace L2Run

variable {m : Mode Hash} {n : ℤ} {parents : List UTXO} {q : Proc Hash} {i : ℕ} {t : Task Hash}

/-- What fanout `i` was given. -/
theorem job (h : L2Run sdk m n parents q) (hi : q.tasks[i]? = some t) :
    t.kind = .l2 ∧ parents[i]? = some t.utxo ∧
      t.n = l2FanoutSizeForParent n parents.length i := by
  have hj : ((l2Tasks n parents : List (Task Hash)).map Task.job)[i]? = some t.job := by
    rw [← h.jobs, List.getElem?_map, hi]
    rfl
  rw [l2Tasks_jobs, List.getElem?_mapIdx] at hj
  cases hp : parents[i]? with
  | none => rw [hp] at hj; cases hj
  | some u =>
    rw [hp] at hj
    simp only [Option.map_some, Option.some.injEq, Task.job, Prod.mk.injEq] at hj
    exact ⟨hj.1.symm, by rw [hj.2.1], hj.2.2.symm⟩

theorem kind (h : L2Run sdk m n parents q) (ht : t ∈ q.tasks) : t.kind ≠ .sustain := by
  obtain ⟨i, hi⟩ := List.mem_iff_getElem?.1 ht
  rw [(h.job hi).1]
  decide

theorem utxos (h : L2Run sdk m n parents q) : q.tasks.map Task.utxo = parents := by
  have hj := congrArg (List.map fun j => j.2.1) h.jobs
  rw [List.map_map, l2Tasks_jobs] at hj
  refine hj.trans (List.ext_getElem? fun i => ?_)
  rw [List.getElem?_map, List.getElem?_mapIdx]
  cases parents[i]? <;> rfl

/-- Distinct parents are fanned out by distinct goroutines. -/
theorem index_eq (h : L2Run sdk m n parents q) (hdist : (parents.map sdk.outpoint).Nodup) {j : ℕ}
    {t' : Task Hash} (hi : q.tasks[i]? = some t) (hj : q.tasks[j]? = some t')
    (he : sdk.outpoint t.utxo = sdk.outpoint t'.utxo) : i = j := by
  have hpi : (parents.map sdk.outpoint)[i]? = some (sdk.outpoint t.utxo) := by
    rw [List.getElem?_map, (h.job hi).2.1]
    rfl
  have hpj : (parents.map sdk.outpoint)[j]? = some (sdk.outpoint t'.utxo) := by
    rw [List.getElem?_map, (h.job hj).2.1]
    rfl
  refine (List.getElem?_inj (List.getElem?_eq_some_iff.1 hpi).1 hdist).1 ?_
  rw [hpi, hpj, he]

theorem eq_of_utxo (h : L2Run sdk m n parents q) (hdist : (parents.map sdk.outpoint).Nodup)
    {t' : Task Hash} (ht : t ∈ q.tasks) (ht' : t' ∈ q.tasks) (he : t.utxo = t'.utxo) : t = t' := by
  obtain ⟨i, hi⟩ := List.mem_iff_getElem?.1 ht
  obtain ⟨j, hj⟩ := List.mem_iff_getElem?.1 ht'
  have hij := h.index_eq hdist hi hj (by rw [he])
  rw [← hij, hi] at hj
  exact Option.some.inj hj

/-- Distinct fanouts build distinct transactions. -/
theorem build_ne (h : L2Run sdk m n parents q) (hinj : Function.Injective sdk.txHash)
    (hdist : (parents.map sdk.outpoint).Nodup) {j : ℕ} {t' : Task Hash}
    (hi : q.tasks[i]? = some t) (hj : q.tasks[j]? = some t') (hij : i ≠ j)
    {p p' : PendingBroadcast Hash} (hb : t.build sdk m = .ok p) (hb' : t'.build sdk m = .ok p') :
    p.txID ≠ p'.txID ∧ ∀ c ∈ p.created, ∀ d ∈ p'.created, sdk.outpoint c ≠ sdk.outpoint d := by
  obtain ⟨raw, hraw⟩ := Task.build_ok hb
  obtain ⟨raw', hraw'⟩ := Task.build_ok hb'
  have hne : raw ≠ raw' := by
    rintro rfl
    exact hij (h.index_eq hdist hi hj (hraw.spends.outpoint_eq hraw'.spends))
  refine ⟨fun he => ?_, fun c hc d hd he => hne (hraw.created_inj hinj hraw' hc hd he).2⟩
  rw [hraw.txID, hraw'.txID] at he
  exact hne (txID_injective hinj he)

/-- An output of the fanouts is one of a committed fanout. -/
theorem output_cases (h : L2Run sdk m n parents q) {v : UTXO}
    (hv : v ∈ q.tasks.flatMap Task.outputs) :
    ∃ (j : ℕ) (t : Task Hash) (p : PendingBroadcast Hash), q.tasks[j]? = some t ∧
      t.accepted = true ∧ t.build sdk m = .ok p ∧ v ∈ p.created := by
  obtain ⟨t, ht, hvt⟩ := List.mem_flatMap.1 hv
  obtain ⟨j, hj⟩ := List.mem_iff_getElem?.1 ht
  have ha := Task.accepted_of_mem_outputs hvt
  obtain ⟨p, hb, hp⟩ := (h.ran t ht).outputs ha
  exact ⟨j, t, p, hj, ha, hb, hp ▸ hvt⟩

/-- A fanout that is not committed has no output among those of the fanouts. -/
theorem created_not_output (h : L2Run sdk m n parents q) (hinj : Function.Injective sdk.txHash)
    (hdist : (parents.map sdk.outpoint).Nodup) (hi : q.tasks[i]? = some t)
    (ha : t.accepted = false) {p : PendingBroadcast Hash} (hb : t.build sdk m = .ok p) {c v : UTXO}
    (hc : c ∈ p.created) (hv : v ∈ q.tasks.flatMap Task.outputs) :
    sdk.outpoint v ≠ sdk.outpoint c := by
  obtain ⟨j, t₂, p₂, hj, ha₂, hb₂, hv₂⟩ := h.output_cases hv
  have hji : j ≠ i := by
    rintro rfl
    rw [hi] at hj
    cases hj
    rw [ha] at ha₂
    cases ha₂
  exact (h.build_ne hinj hdist hj hi hji hb₂ hb).2 v hv₂ c hc

/-- A step of a fanout. -/
theorem task (h : L2Run sdk m n parents q) {w w' : World Hash} {e : TaskEvent} {queue : List UTXO}
    {t' : Task Hash} (hi : q.tasks[i]? = some t) (he : TaskEffect sdk w q t e w' queue t') :
    L2Run sdk m n parents { q with queue, tasks := q.tasks.set i t' } := by
  have htm := List.mem_of_getElem? hi
  obtain ⟨hjob, hran, hqueue⟩ := he.fanout (h.kind htm) (h.mode ▸ h.ran t htm)
  refine ⟨h.main, h.stage, h.mode, h.numChains, ?_, ?_, ?_⟩
  · show (q.tasks.set i t').map Task.job = _
    rw [List.map_set, hjob, set_of_getElem? (by rw [List.getElem?_map, hi]; rfl), h.jobs]
  · exact forall_set h.ran (h.mode ▸ hran)
  · -- the parent this step put back is counted once, in the queue and among those given
    have hset := flatMap_set_perm Task.given (b := t') hi
    have hq := h.queue
    rw [List.perm_iff_count] at hqueue hset hq ⊢
    intro v
    have h1 := hqueue v
    have h2 := hset v
    have h3 := hq v
    simp only [List.count_append] at h1 h2 h3 ⊢
    omega

end L2Run

/-! ## The store during the fanouts -/

/-- None of the outputs `us` is an output of a transaction that spends one of them. -/
def Unspents (sdk : SDK Hash) (us : List UTXO) : Prop :=
  ∀ u ∈ us, ∀ raw, Spends sdk raw u →
    ∀ v ∈ us, sdk.newHashFromHex v.txHash ≠ some (sdk.txHash raw)

/-- The parents are distinct unspent outputs in the store `s`. -/
structure L2Parents (sdk : SDK Hash) (s : Store Hash) (parents : List UTXO) : Prop where
  distinct : (parents.map sdk.outpoint).Nodup
  stored : ∀ u ∈ parents, u ∈ s.loadAll
  unspent : Unspents sdk s.loadAll

namespace L2Parents

variable {m : Mode Hash} {n : ℤ} {parents : List UTXO} {s : Store Hash} {q : Proc Hash}
  {t : Task Hash}

theorem mem (hP : L2Parents sdk s parents) (hR : L2Run sdk m n parents q) (ht : t ∈ q.tasks) :
    t.utxo ∈ s.loadAll := by
  apply hP.stored
  rw [← hR.utxos]
  exact List.mem_map_of_mem ht

/-- An output of a fanout is new. -/
theorem created_new (hP : L2Parents sdk s parents) (hR : L2Run sdk m n parents q)
    (ht : t ∈ q.tasks) {p : PendingBroadcast Hash} (hb : t.build sdk m = .ok p) {c v : UTXO}
    (hc : c ∈ p.created) (hv : v ∈ s.loadAll) : sdk.outpoint v ≠ sdk.outpoint c := by
  intro he
  obtain ⟨raw, hraw⟩ := Task.build_ok hb
  have hparse := outpoint_parse he
  rw [hraw.created] at hc
  rw [(mem_createdBy.1 hc).1, hraw.parse_txID] at hparse
  exact hP.unspent t.utxo (hP.mem hR ht) raw hraw.spends v hv hparse

/-- What was stored is not an output of a fanout. -/
theorem not_output (hP : L2Parents sdk s parents) (hR : L2Run sdk m n parents q) {v : UTXO}
    (hv : v ∈ s.loadAll) : v ∉ q.tasks.flatMap Task.outputs := by
  intro hout
  obtain ⟨j, t, p, hj, -, hb, hc⟩ := hR.output_cases hout
  exact hP.created_new hR (List.mem_of_getElem? hj) hb hc hv rfl

end L2Parents

/-- The fanout has written its record and not cleared it. -/
def Task.inFlight (t : Task Hash) : Bool :=
  match t.pc with
  | .saved _ | .accepted _ | .stopped => true
  | _ => false

/-- The pending record of the fanout is in the store. -/
def Task.Recorded (sdk : SDK Hash) (m : Mode Hash) (s : Store Hash) (t : Task Hash) : Prop :=
  ∃ p savedAt, t.build sdk m = .ok p ∧ { p with savedAt } ∈ s.loadPending

/-- The store `s` while fanouts run that found the store `s₀`: the committed ones have
replaced their parents by their outputs. -/
structure L2Store (sdk : SDK Hash) (m : Mode Hash) (s₀ s : Store Hash) (tasks : List (Task Hash)) :
    Prop where
  utxos : tasks.flatMap Task.used ++ s.loadAll ~ tasks.flatMap Task.outputs ++ s₀.loadAll
  recorded : ∀ t ∈ tasks, t.inFlight = true → t.Recorded sdk m s

namespace L2Store

variable {m : Mode Hash} {n : ℤ} {parents : List UTXO} {s₀ s s' : Store Hash} {q : Proc Hash}
  {i : ℕ} {t t' : Task Hash}

/-- The parent of a fanout that is not committed is stored. -/
theorem parent_stored (h : L2Store sdk m s₀ s q.tasks) (hP : L2Parents sdk s₀ parents)
    (hR : L2Run sdk m n parents q) (ht : t ∈ q.tasks) (ha : t.accepted = false) :
    t.utxo ∈ s.loadAll := by
  have hmem := h.utxos.mem_iff.2 (List.mem_append_right _ (hP.mem hR ht))
  rcases List.mem_append.1 hmem with hused | hs
  · -- a committed fanout of the same parent would be this one
    obtain ⟨t₂, ht₂, ha₂, hu⟩ := Task.mem_used.1 hused
    rw [← hR.eq_of_utxo hP.distinct ht ht₂ hu, ha] at ha₂
    cases ha₂
  · exact hs

/-- The output of a fanout that is not committed is stored nowhere. -/
theorem created_not_stored (h : L2Store sdk m s₀ s q.tasks) (hinj : Function.Injective sdk.txHash)
    (hP : L2Parents sdk s₀ parents) (hR : L2Run sdk m n parents q) (hi : q.tasks[i]? = some t)
    (ha : t.accepted = false) {p : PendingBroadcast Hash} (hb : t.build sdk m = .ok p) {c v : UTXO}
    (hc : c ∈ p.created) (hv : v ∈ s.loadAll) : sdk.outpoint v ≠ sdk.outpoint c := by
  have hmem := h.utxos.mem_iff.1 (List.mem_append_right _ hv)
  rcases List.mem_append.1 hmem with hout | hs
  · exact hR.created_not_output hinj hP.distinct hi ha hb hc hout
  · exact hP.created_new hR (List.mem_of_getElem? hi) hb hc hs

/-- A step of a fanout that leaves the stored UTXOs alone, and of the pending records
all but its own. -/
theorem keep (h : L2Store sdk m s₀ s q.tasks) (hinj : Function.Injective sdk.txHash)
    (hP : L2Parents sdk s₀ parents) (hR : L2Run sdk m n parents q) (hi : q.tasks[i]? = some t)
    (ha : t.accepted = false) (ha' : t'.accepted = false) (hall : s'.loadAll = s.loadAll)
    (hrec : t'.inFlight = true → t'.Recorded sdk m s')
    (hpend : ∀ r ∈ s.loadPending, (∀ p, t.build sdk m = .ok p → r.txID ≠ p.txID) →
      r ∈ s'.loadPending) :
    L2Store sdk m s₀ s' (q.tasks.set i t') where
  utxos := by
    have hused := flatMap_set_perm Task.used (b := t') hi
    have hout := flatMap_set_perm Task.outputs (b := t') hi
    rw [Task.used, Task.used, ha, ha'] at hused
    rw [Task.outputs_of_not_accepted ha, Task.outputs_of_not_accepted ha'] at hout
    simp only [List.append_nil, Bool.false_eq_true, if_false] at hused hout
    rw [hall]
    exact (hused.append_right _).trans (h.utxos.trans (hout.append_right _).symm)
  recorded := by
    intro a ham hfl
    rcases mem_set_cases ham with rfl | ⟨j, hji, hj⟩
    · exact hrec hfl
    · obtain ⟨r, savedAt, hb, hr⟩ := h.recorded a (List.mem_of_getElem? hj) hfl
      refine ⟨r, savedAt, hb, hpend _ hr fun p hp => ?_⟩
      exact (hR.build_ne hinj hP.distinct hj hi hji hb hp).1

/-- The commit of a fanout. -/
theorem commit (h : L2Store sdk m s₀ s q.tasks) (hinj : Function.Injective sdk.txHash)
    (hP : L2Parents sdk s₀ parents) (hR : L2Run sdk m n parents q) (hi : q.tasks[i]? = some t)
    {p : PendingBroadcast Hash} (hpc : t.pc = .accepted p) :
    L2Store sdk m s₀ (s.commitPending p.txID p.spent p.created)
      (q.tasks.set i { t with pc := .done p.created }) := by
  have htm := List.mem_of_getElem? hi
  have ha : t.accepted = false := by rw [Task.accepted, hpc]
  have hran := hR.ran t htm
  rw [Task.Ran, hpc] at hran
  obtain ⟨hb, hid⟩ := hran
  obtain ⟨raw, hraw⟩ := Task.build_ok hb
  have hpos : p.created.filter (·.value ≠ 0) = p.created := by
    rw [Task.build, (hR.job hi).1] at hb
    exact List.filter_eq_self.2 (by simpa using (fanoutPending_ok hb).2.2.2.2)
  have hcom : t.utxo :: (s.commitPending p.txID [t.utxo] p.created).loadAll ~
      p.created.filter (·.value ≠ 0) ++ s.loadAll :=
    Store.loadAll_commitPending (h.parent_stored hP hR htm ha)
      (fun c hc x hx hk => h.created_not_stored hinj hP hR hi ha hb hc hx (outpoint_of_key hk))
      (Ledger.created_keys hraw)
  rw [hpos, ← hraw.spent] at hcom
  exact {
    utxos := by
      have hused := flatMap_set_perm Task.used (b := { t with pc := .done p.created }) hi
      have hout := flatMap_set_perm Task.outputs (b := { t with pc := .done p.created }) hi
      have hutxos := h.utxos
      rw [Task.used, Task.used, ha, if_neg (by simp), if_pos (by rfl)] at hused
      rw [Task.outputs_of_not_accepted ha] at hout
      rw [List.perm_iff_count] at hused hout hcom hutxos ⊢
      intro v
      have h1 := hused v
      have h2 := hout v
      have h3 := hcom v
      have h4 := hutxos v
      simp only [List.count_append, List.count_cons, List.count_nil, Task.outputs] at h1 h2 h3 h4 ⊢
      omega
    recorded := by
      intro a ham hfl
      rcases mem_set_cases ham with rfl | ⟨j, hji, hj⟩
      · cases hfl
      · obtain ⟨r, savedAt, hbr, hr⟩ := h.recorded a (List.mem_of_getElem? hj) hfl
        refine ⟨r, savedAt, hbr, (Store.mem_commitPending_pending hid).2 ⟨?_, hr⟩⟩
        exact (hR.build_ne hinj hP.distinct hj hi hji hbr hb).1 }

/-- **A step of a fanout keeps the account of the store.** -/
theorem task {w w' : World Hash} (h : L2Store sdk m s₀ w.store q.tasks)
    (hinj : Function.Injective sdk.txHash) (hP : L2Parents sdk s₀ parents)
    (hR : L2Run sdk m n parents q) (hi : q.tasks[i]? = some t) {e : TaskEvent} {queue : List UTXO}
    (he : TaskEffect sdk w q t e w' queue t') : L2Store sdk m s₀ w'.store (q.tasks.set i t') := by
  have htm := List.mem_of_getElem? hi
  have hran := hR.ran t htm
  have hrec := h.recorded t htm
  unfold Task.Ran at hran
  unfold Task.inFlight at hrec
  -- clearing the record of this fanout leaves those of the others
  have hcleared : ∀ (ok : Bool) (p : PendingBroadcast Hash), t.build sdk m = .ok p →
      (if ok then { w with store := w.store.clearPending p.txID } else w).store.loadAll =
        w.store.loadAll ∧
      ∀ r ∈ w.store.loadPending, (∀ p', t.build sdk m = .ok p' → r.txID ≠ p'.txID) →
        r ∈ (if ok then { w with store := w.store.clearPending p.txID } else w).store.loadPending := by
    intro ok p hb
    cases ok with
    | false => exact ⟨rfl, fun r hr _ => hr⟩
    | true => exact ⟨rfl, fun r hr hne => Store.mem_clearPending.2 ⟨hne p hb, hr⟩⟩
  cases he with
  | save p savedAt hpc hb hid =>
    rw [hR.mode] at hb
    refine h.keep hinj hP hR hi (by rw [Task.accepted, hpc]) rfl rfl (fun _ => ?_) fun r hr hne => ?_
    · exact ⟨p, savedAt, hb, Store.mem_savePending.2 (Or.inl rfl)⟩
    · exact Store.mem_savePending.2 (Or.inr ⟨hne p hb, hr⟩)
  | stop e hpc hs => exact absurd hs (hR.kind htm)
  | giveUp e err hpc =>
    exact h.keep hinj hP hR hi (by rw [Task.accepted, hpc]) rfl rfl (fun h => by cases h)
      fun r hr _ => hr
  | broadcast p o hpc =>
    rw [hpc] at hrec
    refine h.keep hinj hP hR hi (by rw [Task.accepted, hpc]) ?_ rfl ?_ fun r hr _ => hr
    · cases o <;> rfl
    · exact fun _ => hrec rfl
  | clear p ok attempt hpc =>
    rw [hpc] at hran
    obtain ⟨hall, hpend⟩ := hcleared ok p hran.1
    exact h.keep hinj hP hR hi (by rw [Task.accepted, hpc]) rfl hall (fun h => by cases h) hpend
  | clearLast p ok hpc =>
    rw [hpc] at hran
    obtain ⟨hall, hpend⟩ := hcleared ok p hran.1
    exact h.keep hinj hP hR hi (by rw [Task.accepted, hpc]) rfl hall (fun h => by cases h) hpend
  | commit p hpc =>
    rw [Task.afterCommit, if_neg (hR.kind htm)]
    exact h.commit hinj hP hR hi hpc
  | commitFail p hpc =>
    rw [hpc] at hrec
    exact h.keep hinj hP hR hi (by rw [Task.accepted, hpc]) rfl rfl (fun _ => hrec rfl)
      fun r hr _ => hr

end L2Store

/-! ## From the start of `bootstrapL2` to its return -/

/-- The fanouts of `parents`, begun on the store `s₀`, are running or have returned. -/
def L2Inv (sdk : SDK Hash) (m : Mode Hash) (n : ℤ) (parents : List UTXO) (s₀ : Store Hash)
    (w : World Hash) : Prop :=
  ∃ q, w.proc = some q ∧
    ((L2Run sdk m n parents q ∧
        (L2Parents sdk s₀ parents → L2Store sdk m s₀ w.store q.tasks)) ∨
      q.main = .chains ∨ ∃ e, q.main = .failed e)

section Run

variable {m : Mode Hash} {n : ℤ} {parents : List UTXO} {s₀ : Store Hash} {w : World Hash}
  {q : Proc Hash}

theorem L2Inv.step (hinj : Function.Injective sdk.txHash) {e : Event Hash}
    (h : L2Inv sdk m n parents s₀ w) (hlife : SameLife e) :
    L2Inv sdk m n parents s₀ (w.step sdk e) := by
  obtain ⟨q₀, hq₀, hcase⟩ := h
  have hsame : ∀ {q : Proc Hash}, w.proc = some q → q = q₀ := by
    intro q hq
    rw [hq₀] at hq
    exact (Option.some.inj hq).symm
  have he := step_effect sdk w e
  generalize w.step sdk e = w' at he ⊢
  cases he with
  | idle => exact ⟨q₀, hq₀, hcase⟩
  | start o initial hw =>
    rw [hq₀] at hw
    cases hw
  | crash => exact hlife.elim
  | cancel q hq =>
    obtain rfl := hsame hq
    refine ⟨_, rfl, ?_⟩
    rcases hcase with ⟨hR, hS⟩ | hret
    · exact Or.inl ⟨⟨hR.main, hR.stage, hR.mode, hR.numChains, hR.jobs, hR.ran, hR.queue⟩, hS⟩
    · exact Or.inr hret
  | configure u q q' hq hst hc =>
    obtain rfl := hsame hq
    obtain ⟨hf, n', f', m', rfl⟩ := configure_ok hc
    refine ⟨_, rfl, ?_⟩
    rcases hcase with ⟨hR, -⟩ | hret
    · -- the stage alone makes `ConfigureBootstrap` refuse
      simp [Proc.funded, hR.stage] at hf
    · exact Or.inr hret
  | poll utxos q hq hm =>
    obtain rfl := hsame hq
    rcases hcase with ⟨hR, -⟩ | hret | ⟨e, hret⟩
    · rw [hR.main] at hm
      cases hm
    · rw [hret] at hm
      cases hm
    · rw [hret] at hm
      cases hm
  | main ok q w' hq h =>
    obtain rfl := hsame hq
    have hpoint : q.main = .l2 ∨ q.main = .chains ∨ ∃ e, q.main = .failed e := by
      rcases hcase with ⟨hR, -⟩ | hret
      · exact Or.inl hR.main
      · exact Or.inr hret
    cases h with
    | wait => exact ⟨q, hq₀, hcase⟩
    | endL2 => exact ⟨_, rfl, Or.inr (Or.inl rfl)⟩
    | startChain ok u rest hm => exact ⟨_, rfl, Or.inr (Or.inl hm)⟩
    | fail | failAt => exact ⟨_, rfl, Or.inr (Or.inr ⟨_, rfl⟩)⟩
    | newFails hm => rcases hpoint with h | h | ⟨e, h⟩ <;> rw [h] at hm <;> cases hm
    | persist u rest hm | persisted ok hm | replayUnknown ok p rest c k hm
    | replayCommit p rest c k hm | replayStage ok st rest c k hm | restored ok c hm
    | restoredUnknown ok c k hm | waitForSeed ok hm | ready ok hm | pushSeed u rest hm
    | seeded ok hm | lock ok st hm | beginL1 ok seed rest hm | endL1 ok t outs hm
    | beginL2 ok hm | markDone ok hm =>
      rcases hpoint with h | h | ⟨e, h⟩ <;> rw [h] at hm <;> cases hm
  | task i te q t t' w' queue hq hi h =>
    obtain rfl := hsame hq
    refine ⟨_, rfl, ?_⟩
    rcases hcase with ⟨hR, hS⟩ | hret
    · refine Or.inl ⟨hR.task hi h, fun hP => ?_⟩
      have hS' := (hS hP).task hinj hP hR hi h
      exact hS'
    · exact Or.inr hret

/-- `bootstrapL2` starts its fanouts. -/
theorem L2Inv.begin (hq : w.proc = some q) (hm : q.main = .l2Start) (hne : q.queue ≠ [])
    (hle : (q.queue.length : ℤ) ≤ q.numChains) (ok : Bool) :
    L2Inv sdk q.mode q.numChains (Queue.drain q.queue) w.store (w.step sdk (.main ok)) := by
  have hperm := Queue.drain_perm q.queue
  have hne' := Queue.drain_ne_nil hne
  have hlen := hperm.length_eq
  rw [step_main hq, World.mainStep, hm]
  dsimp only [World.beginL2]
  rw [if_neg hne', if_neg (by omega)]
  -- no fanout has taken a step
  have hwait : ∀ t ∈ (l2Tasks q.numChains (Queue.drain q.queue) : List (Task Hash)),
      t.pc = .wait := by
    intro t ht
    obtain ⟨i, hi, rfl⟩ := List.mem_mapIdx.1 ht
    rfl
  have hnil : ∀ f : Task Hash → List UTXO, (∀ t, t.pc = .wait → f t = []) →
      (l2Tasks q.numChains (Queue.drain q.queue)).flatMap f = [] :=
    fun f hf => List.flatMap_eq_nil_iff.2 fun t ht => hf t (hwait t ht)
  refine ⟨_, rfl, Or.inl ⟨⟨rfl, rfl, rfl, rfl, rfl, ?_, ?_⟩, fun _ => ⟨?_, ?_⟩⟩⟩
  · intro t ht
    rw [Task.Ran, hwait t ht]
    trivial
  · have hgiven := hnil Task.given fun t ht => by simp [Task.given, Task.requeued, ht]
    rw [l2Tasks] at hgiven
    rw [hgiven]
  · have hused := hnil Task.used fun t ht => by simp [Task.used, Task.accepted, ht]
    have hout := hnil Task.outputs fun t ht => by simp [Task.outputs, ht]
    rw [l2Tasks] at hused hout
    rw [hused, hout]
    cases ok <;> exact List.Perm.refl _
  · intro t ht hfl
    rw [Task.inFlight, hwait t ht] at hfl
    cases hfl

/-- **The fanouts while they run**, in whatever order their steps come. -/
theorem l2_run (hinj : Function.Injective sdk.txHash) (hq : w.proc = some q)
    (hm : q.main = .l2Start) (hne : q.queue ≠ []) (hle : (q.queue.length : ℤ) ≤ q.numChains)
    (ok : Bool) {es : List (Event Hash)} (hes : ∀ e ∈ es, SameLife e) {q' : Proc Hash}
    (hq' : ((w.step sdk (.main ok)).run sdk es).proc = some q') (hm' : q'.main = .l2) :
    L2Run sdk q.mode q.numChains (Queue.drain q.queue) q' ∧
      (L2Parents sdk w.store (Queue.drain q.queue) →
        L2Store sdk q.mode w.store ((w.step sdk (.main ok)).run sdk es).store q'.tasks) := by
  have hinv := Along.inv (C := fun _ e => SameLife e)
    (I := L2Inv sdk q.mode q.numChains (Queue.drain q.queue) w.store)
    (fun _ _ h hlife => h.step hinj hlife) (Along.of_forall fun e he _ => hes e he)
    (L2Inv.begin hq hm hne hle ok)
  obtain ⟨q₀, hq₀, hcase⟩ := hinv
  have hq₀' : q' = q₀ := Option.some.inj (hq'.symm.trans hq₀)
  subst hq₀'
  rcases hcase with h | h | ⟨e, h⟩
  · exact h
  · rw [h] at hm'
    cases hm'
  · rw [h] at hm'
    cases hm'

end Run

/-! ## Fanouts that are all accepted -/

/-- The sizes as they are handed out sum to the number of chains. -/
theorem sum_l2FanoutSizeForParent {n k : ℕ} (hn : 0 < n) (hk : 0 < k) :
    ((List.range k).map fun i : ℕ => l2FanoutSizeForParent n k i).sum = (n : ℤ) := by
  have hsize : ((List.range k).map fun i : ℕ => l2FanoutSizeForParent n k i) =
      ((List.range k).map (splitSize n k)).map fun m : ℕ => (m : ℤ) := by
    rw [List.map_map]
    apply List.map_congr_left
    intro i hi
    exact l2FanoutSizeForParent_eq hn (List.mem_range.1 hi)
  rw [hsize, ← Nat.cast_list_sum, sum_splitSize hk]

namespace L2Run

variable {m : Mode Hash} {n : ℤ} {parents : List UTXO} {q : Proc Hash}

theorem sizes (h : L2Run sdk m n parents q) :
    q.tasks.map Task.n =
      (List.range parents.length).map fun i : ℕ => l2FanoutSizeForParent n parents.length i := by
  have hj := congrArg (List.map fun j => j.2.2) h.jobs
  rw [List.map_map, l2Tasks_jobs] at hj
  refine hj.trans (List.ext_getElem? fun i => ?_)
  rw [List.getElem?_map, List.getElem?_mapIdx, List.getElem?_map]
  by_cases hi : i < parents.length
  · rw [List.getElem?_range hi, List.getElem?_eq_getElem hi]
    rfl
  · rw [List.getElem?_eq_none (by omega), List.getElem?_eq_none (by simpa using hi)]
    rfl

/-- Committed fanouts have as many outputs as there are chains. -/
theorem length_outputs (h : L2Run sdk m n parents q) (hne : parents ≠ [])
    (hle : (parents.length : ℤ) ≤ n) (hacc : ∀ t ∈ q.tasks, t.accepted = true) :
    ((q.tasks.flatMap Task.outputs).length : ℤ) = n := by
  have hk : 0 < parents.length := List.length_pos_of_ne_nil hne
  have hlen : ∀ t ∈ q.tasks, (t.outputs.length : ℤ) = t.n := by
    intro t ht
    obtain ⟨p, hb, hp⟩ := (h.ran t ht).outputs (hacc t ht)
    obtain ⟨i, hi⟩ := List.mem_iff_getElem?.1 ht
    rw [Task.build, (h.job hi).1] at hb
    obtain ⟨-, -, hn, hlen, -⟩ := fanoutPending_ok hb
    rw [hp, hlen]
    omega
  obtain ⟨N, rfl⟩ := Int.eq_ofNat_of_zero_le (a := n) (by omega)
  calc ((q.tasks.flatMap Task.outputs).length : ℤ)
      = (q.tasks.map fun t => (t.outputs.length : ℤ)).sum := by
        rw [List.length_flatMap, Nat.cast_list_sum, List.map_map]
        rfl
    _ = (q.tasks.map Task.n).sum := by rw [List.map_congr_left hlen]
    _ = N := by rw [h.sizes, sum_l2FanoutSizeForParent (by omega) hk]

/-- Nothing is put back on the queue by committed fanouts. -/
theorem queue_nil (h : L2Run sdk m n parents q) (hacc : ∀ t ∈ q.tasks, t.accepted = true) :
    q.queue = [] := by
  have hgiven : q.tasks.flatMap Task.given = [] := by
    rw [List.flatMap_eq_nil_iff]
    intro t ht
    have ha := hacc t ht
    unfold Task.accepted at ha
    unfold Task.given Task.requeued
    split at ha <;> simp_all
  have hq := h.queue
  rw [hgiven] at hq
  exact hq.eq_nil

end L2Run

/-! ## The return -/

section Return

variable {w : World Hash} {q : Proc Hash}

/-- `bootstrapL2` refuses more parents than chains. -/
theorem step_l2Start_many (hq : w.proc = some q) (hm : q.main = .l2Start) (hne : q.queue ≠ [])
    (hlt : q.numChains < q.queue.length) (ok : Bool) :
    w.step sdk (.main ok) = (w.writeStage ok .l2Partial).fail
      { q with stage := .l2Partial, queue := Queue.pushAll [] (Queue.drain q.queue) }
      .manualRecovery := by
  have hstep : w.mainStep q ok =
      (w.writeStage ok .l2Partial).beginL2 { q with stage := .l2Partial } := by
    rw [World.mainStep, hm]
  rw [step_main hq, hstep]
  dsimp only [World.beginL2]
  rw [if_neg (Queue.drain_ne_nil hne),
    if_pos (by rw [(Queue.drain_perm q.queue).length_eq]; exact hlt)]

/-- `bootstrapL2` returns. -/
theorem step_endL2 (hq : w.proc = some q) (hm : q.main = .l2)
    (hend : ∀ t ∈ q.tasks, t.ended = true) (ok : Bool) :
    let queue := Queue.pushAll q.queue (q.tasks.flatMap Task.outputs)
    w.step sdk (.main ok) =
      if q.tasks.all Task.accepted ∧ ((q.tasks.flatMap Task.outputs).length : ℤ) = q.numChains then
        (w.writeStage ok .l2Done).setProc
          { q with stage := .l2Done, queue, tasks := [], main := .chains }
      else
        (w.writeStage ok .l2Partial).fail
          { q with stage := .l2Partial, queue } .bootstrapIncomplete := by
  have hstep : w.mainStep q ok = w.endL2 q ok := by rw [World.mainStep, hm]
  rw [step_main hq, hstep]
  dsimp only [World.endL2]
  rw [if_pos (List.all_eq_true.2 hend)]

end Return

namespace Concrete

/-- A process about to fan three stored UTXOs out to five chains. -/
def threeParents : World Bytes :=
  (World.init (((Store.empty.saveUTXO (funding 0 1000)).saveUTXO (funding 1 1000)).saveUTXO
    (funding 2 1000))).run plainSDK (startup (options 1 5 2) 4)

theorem threeParents_start : threeParents.proc.map (fun q =>
    (q.main, q.queue, q.numChains, q.mode.sustainFee.val)) =
      some (.l2Start, [funding 0 1000, funding 1 1000, funding 2 1000], 5, 1) := by
  decide +kernel

end Concrete

end TxGen
