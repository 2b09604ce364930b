import TxGen.Proof.Invariant

/-!
# The persisted stage

As long as the writes of the stage succeed, the persisted stage tells which records
can be pending: the L1 fanout of the only UTXO before `l1Done`, L2 fanouts at
`l2Partial`, sustain hops at `l2Done` (`Staged`); and it agrees with where the main
goroutine stands (`StagePoint`). This holds over every run, whatever the options,
the funding and the outcomes.
-/

namespace TxGen

open Lib
open scoped List

variable {Hash : Type} {sdk : SDK Hash}

/-- The stage bootstrap starts from: the persisted one, `none` when there is none. -/
def Store.stageOr (s : Store Hash) : Stage := s.stage.getD .none

/-- The records that can be pending at the persisted stage. -/
def Staged (s : Store Hash) : Prop :=
  match s.stageOr with
  | .none => s.loadPending = [] ∨
      (s.loadAll.length = 1 ∧ ∀ p ∈ s.loadPending, p.stage = some .l1Done)
  | .l1Done => s.loadPending = []
  | .l2Partial => ∀ p ∈ s.loadPending, p.stage = some .l2Partial
  | .l2Done => ∀ p ∈ s.loadPending, p.stage = some .l2Done
  | .unknown => False

/-- Where the main goroutine stands, the process and the persisted stage agree. -/
def StagePoint (s : Store Hash) (q : Proc Hash) : Prop :=
  match q.main with
  | .persist _ | .replay .. => s.stage = none → q.stage = .none
  | .replayStage st _ _ _ => st ≠ .none ∧ (s.stageOr = st ∨ s.stageOr = .none ∧ st = .l1Done) ∧
      Staged (s.setStage st)
  | .ready => q.stage = s.stageOr
  | .waitForSeed | .pushSeed _ => s.stageOr = .none
  | .lock st => st = s.stageOr
  | .full => s.stageOr = .none ∧ s.loadAll.length = 1
  | .l1 => s.stageOr = .none ∧ ∀ t ∈ q.tasks, t.accepted = false → s.loadAll.length = 1
  | .l2Start => s.stageOr ≠ .l2Done
  | .l2 => s.stageOr = .l2Partial
  | .chains => s.stageOr = .l2Done
  | .markDone | .failed _ => True

/-- The stage invariant. -/
structure StageInv (sdk : SDK Hash) (w : World Hash) : Prop where
  inv : Inv sdk w
  staged : Staged w.store
  point : ∀ q, w.proc = some q → StagePoint w.store q

/-- The writes of the main goroutine succeed. -/
def WritesOK : Event Hash → Prop
  | .main ok => ok = true
  | _ => True

section Staged

variable {s : Store Hash}

theorem staged_of_nil (h : s.loadPending = []) (hs : s.stageOr ≠ .unknown) : Staged s := by
  unfold Staged
  split
  · exact Or.inl h
  · exact h
  · rw [h]
    simp
  · rw [h]
    simp
  · rename_i hu
    exact hs hu

theorem Staged.ne_unknown (h : Staged s) : s.stageOr ≠ .unknown := by
  intro hu
  unfold Staged at h
  rw [hu] at h
  exact h

variable {imported : List UTXO} {committed : List (PendingBroadcast Hash)}
  {p : PendingBroadcast Hash}

/-- **The replay of a record**, before and after the write of its stage. -/
theorem Staged.commit (h : Staged s) (hL : Ledger sdk s imported committed)
    (hp : p ∈ s.loadPending) :
    ∃ st, st ≠ .none ∧ (s.stageOr = st ∨ s.stageOr = .none ∧ st = .l1Done) ∧ p.stage = some st ∧
      Staged (s.commitPending p.txID p.spent p.created) ∧
      Staged ((s.commitPending p.txID p.spent p.created).setStage st) := by
  have hne : s.loadPending ≠ [] := List.ne_nil_of_mem hp
  have hid := hL.pending_txID p hp
  have hor : (s.commitPending p.txID p.spent p.created).stageOr = s.stageOr := rfl
  have hsub : ∀ r ∈ (s.commitPending p.txID p.spent p.created).loadPending, r ∈ s.loadPending :=
    fun r hr => ((Store.mem_commitPending_pending hid).1 hr).2
  have hunk := h.ne_unknown
  unfold Staged at h
  split at h
  case h_1 hst =>
    obtain ⟨h1, h2⟩ := h.resolve_left hne
    have hnil := hL.commit_single h1 hp
    exact ⟨.l1Done, (by simp), Or.inr ⟨hst, rfl⟩, h2 p hp, staged_of_nil hnil (hor ▸ hunk), hnil⟩
  case h_2 => exact absurd h hne
  case h_3 hst =>
    refine ⟨.l2Partial, (by simp), Or.inl hst, h p hp, ?_, fun r hr => h r (hsub r hr)⟩
    unfold Staged
    rw [hor, hst]
    exact fun r hr => h r (hsub r hr)
  case h_4 hst =>
    refine ⟨.l2Done, (by simp), Or.inl hst, h p hp, ?_, fun r hr => h r (hsub r hr)⟩
    unfold Staged
    rw [hor, hst]
    exact fun r hr => h r (hsub r hr)
  case h_5 => exact h.elim

end Staged

theorem StageInv.setProc {w : World Hash} {q : Proc Hash} (hI : Inv sdk (w.setProc q))
    (hS : Staged w.store) (hpt : StagePoint w.store q) : StageInv sdk (w.setProc q) where
  inv := hI
  staged := hS
  point q' hq' := by cases hq'; exact hpt

section MainSteps

variable {w w' : World Hash} {q : Proc Hash}

/-- The dispatch on the persisted stage. -/
theorem Idle.dispatch_point (h : Idle w.store q) {n l : ℤ} :
    StagePoint w.store { q with
      bootstrapLocked := true
      main := dispatch w.store.stageOr q.queue.length n l } := by
  have hlen := h.queue.length_eq
  unfold StagePoint
  cases hst : w.store.stageOr with
  | none =>
    dsimp only [dispatch]
    split_ifs with h1
    · exact ⟨rfl, by omega⟩
    · simp
    · trivial
    · trivial
  | l1Done => simp [dispatch]
  | l2Partial =>
    dsimp only [dispatch, resumePartialL2]
    split_ifs
    · trivial
    · simp
    · trivial
    · trivial
  | l2Done => rfl
  | unknown => trivial

/-- Importing a UTXO keeps the records of an idle store. -/
theorem staged_import (h : Staged w.store) {u : UTXO}
    (hu : u ∈ w.store.loadAll ∨ w.store.loadPending = []) : Staged (w.importUTXO u).store := by
  rcases hu with hu | hnil
  · rw [importUTXO_of_mem hu]
    exact h
  · exact staged_of_nil (s := (w.importUTXO u).store) hnil h.ne_unknown

/-- **A step of the main goroutine keeps the stage invariant.** -/
theorem StageInv.mainEffect (h : StageInv sdk w) (hq : w.proc = some q)
    (he : MainEffect w q true w') (hI' : Inv sdk w') : StageInv sdk w' := by
  have hS := h.staged
  have hp := h.inv.proc q hq
  have hpt := h.point q hq
  -- a write of a stage when no record is pending
  have hwrite : ∀ st : Stage, st ≠ .unknown → w.store.loadPending = [] →
      Staged (w.store.setStage st) :=
    fun st hst hnil => staged_of_nil (s := w.store.setStage st) hnil hst
  unfold ProcOK at hp
  unfold StagePoint at hpt
  cases he with
  | wait => exact h
  | persist u rest hm =>
    rw [hm] at hp hpt
    refine StageInv.setProc hI' (staged_import hS ?_) hpt
    rcases hp.2 with ⟨hin, -⟩ | ⟨hnil, -⟩
    · exact Or.inl (hin u List.mem_cons_self)
    · exact Or.inr hnil
  | persisted _ hm | replayUnknown _ _ _ _ _ hm =>
    rw [hm] at hpt
    exact StageInv.setProc hI' hS hpt
  | replayCommit p rest changed unknown hm =>
    rw [hm] at hp
    -- the record is gone before its stage is written: the file is staged at both moments
    obtain ⟨st, hne, hor, hst, hS', hS''⟩ :=
      hS.commit h.inv.ledger (hp.rest.mem_iff.1 List.mem_cons_self)
    rw [hst] at hI' ⊢
    exact StageInv.setProc hI' hS' ⟨hne, hor, hS''⟩
  | replayStage _ st rest changed unknown hm =>
    rw [hm] at hpt
    exact StageInv.setProc hI' hpt.2.2 (by simp [StagePoint, World.writeStage, Store.setStage])
  | restored _ changed hm =>
    rw [hm] at hpt
    refine StageInv.setProc hI' hS ?_
    show w.store.stage.getD q.stage = w.store.stage.getD .none
    cases hst : w.store.stage with
    | none => exact hpt hst
    | some st => rfl
  | restoredUnknown _ changed unknown hm hu =>
    rw [hm] at hp
    exact absurd hp.unknown hu
  | waitForSeed _ hm hst =>
    rw [hm] at hpt
    exact StageInv.setProc hI' hS (hpt.symm.trans hst)
  | ready _ hm =>
    rw [hm] at hpt
    exact StageInv.setProc hI' hS hpt
  | pushSeed u rest hm =>
    rw [hm] at hp hpt
    exact StageInv.setProc hI' (staged_import hS (Or.inr hp.1.pending)) hpt
  | seeded _ hm =>
    rw [hm] at hpt
    exact StageInv.setProc hI' hS hpt.symm
  | lock _ st hm =>
    rw [hm] at hp hpt
    rw [hpt] at hI' ⊢
    exact StageInv.setProc hI' hS hp.dispatch_point
  | beginL1 _ seed rest hm hpop =>
    rw [hm] at hp hpt
    exact StageInv.setProc hI' (hwrite .none (by simp) hp.1.pending) ⟨rfl, fun _ _ _ => hpt.2⟩
  | endL1 _ t outputs hm ht hpc =>
    rw [hm] at hp
    have hnil := hp.1.pending_nil (by
      rw [ht]
      intro a ha
      rw [List.mem_singleton.1 ha, Task.accepted, hpc])
    exact StageInv.setProc hI' (hwrite .l1Done (by simp) hnil) (by simp [StagePoint, World.writeStage, Store.setStage, Store.stageOr])
  | beginL2 _ hm =>
    rw [hm] at hp
    exact StageInv.setProc hI' (hwrite .l2Partial (by simp) hp.1.pending) rfl
  | endL2 _ hm hacc =>
    rw [hm] at hp
    exact StageInv.setProc hI'
      (hwrite .l2Done (by simp) (hp.1.pending_nil (List.all_eq_true.1 hacc))) rfl
  | markDone _ hm =>
    rw [hm] at hp
    exact StageInv.setProc hI' (hwrite .l2Done (by simp) hp.1.pending) rfl
  | startChain _ u rest hm =>
    rw [hm] at hpt
    refine StageInv.setProc hI' hS ?_
    unfold StagePoint
    dsimp only
    rw [hm]
    exact hpt
  | fail => exact StageInv.setProc hI' hS trivial
  | failAt _ st queue e hm =>
    refine StageInv.setProc hI' ?_ trivial
    rcases hm with ⟨hm, rfl⟩ | ⟨hm | hm, rfl⟩
    · rw [hm] at hp
      exact hwrite .none (by simp) hp.1.pending
    · rw [hm] at hp
      exact hwrite .l2Partial (by simp) hp.1.pending
    · rw [hm] at hpt
      unfold Staged at hS
      rw [hpt] at hS
      exact hS

end MainSteps

/-- The stage of the record a goroutine builds. -/
def Kind.reaches : Kind → Stage
  | .l1 => .l1Done
  | .l2 => .l2Partial
  | .sustain => .l2Done

theorem Task.build_stage {t : Task Hash} {mode : Mode Hash} {p : PendingBroadcast Hash}
    (h : t.build sdk mode = .ok p) : p.stage = some t.kind.reaches := by
  unfold Task.build at h
  split at h
  case h_1 hk => rw [hk]; exact (fanoutPending_ok h).2.1
  case h_2 hk => rw [hk]; exact (fanoutPending_ok h).2.1
  case h_3 hk => rw [hk]; exact (sustainPending_ok h).2.1

section TaskSteps

variable {w w' : World Hash} {q : Proc Hash} {i : ℕ} {t t' : Task Hash} {e : TaskEvent}
  {queue : List UTXO}

/-- A goroutine runs at the point and stage of its kind. -/
theorem StageInv.kind (h : StageInv sdk w) (hq : w.proc = some q) (ht : t ∈ q.tasks) :
    (q.main = .l1 ∧ q.tasks = [t] ∧ t.kind = .l1 ∧ w.store.stageOr = .none) ∨
    (q.main = .l2 ∧ t.kind = .l2 ∧ w.store.stageOr = .l2Partial) ∨
    (q.main = .chains ∧ t.kind = .sustain ∧ w.store.stageOr = .l2Done) := by
  have hne : q.tasks ≠ [] := List.ne_nil_of_mem ht
  have hp := h.inv.proc q hq
  have hpt := h.point q hq
  unfold ProcOK at hp
  unfold StagePoint at hpt
  split at hp
  case h_1 => exact absurd hp.1 hne
  case h_2 | h_3 | h_4 | h_7 => exact absurd hp.tasks hne
  case h_5 | h_6 | h_8 | h_9 | h_10 => exact absurd hp.1.tasks hne
  case h_11 hm =>
    rw [hm] at hpt
    obtain ⟨-, -, t₀, ht₀, hk⟩ := hp
    rw [ht₀, List.mem_singleton] at ht
    rw [ht]
    exact Or.inl ⟨hm, ht₀, hk, hpt.1⟩
  case h_12 hm =>
    rw [hm] at hpt
    exact Or.inr (Or.inl ⟨hm, hp.2.2 t ht, hpt⟩)
  case h_13 hm =>
    rw [hm] at hpt
    exact Or.inr (Or.inr ⟨hm, (hp.2.2 t ht).1, hpt⟩)
  case h_14 => exact absurd hp hne

/-- A step of a goroutine keeps the stage, and what is pending after it was pending
or is a record of the goroutine's kind. -/
theorem TaskEffect.pending (he : TaskEffect sdk w q t e w' queue t') (hC : Custody sdk w.store q)
    (ht : t ∈ q.tasks) : w'.store.stageOr = w.store.stageOr ∧
      ∀ r ∈ w'.store.loadPending, r ∈ w.store.loadPending ∨ r.stage = some t.kind.reaches := by
  obtain ⟨-, ⟨p, savedAt, hb, hs, -⟩ | ⟨hs | ⟨txid, hs⟩, -⟩ | ⟨p, hpc, rfl, -⟩⟩ := he.store_cases
  · rw [hs]
    refine ⟨rfl, fun r hr => ?_⟩
    rcases Store.mem_savePending.1 hr with rfl | ⟨-, hr⟩
    · have hps := Task.build_stage hb
      exact Or.inr hps
    · exact Or.inl hr
  · rw [hs]
    exact ⟨rfl, fun r hr => Or.inl hr⟩
  · rw [hs]
    exact ⟨rfl, fun r hr => Or.inl (Store.mem_clearPending.1 hr).2⟩
  · have hid := (hC.records t ht p (by rw [Task.record, hpc]; rfl)).2
    exact ⟨rfl, fun r hr => Or.inl ((Store.mem_commitPending_pending hid).1 hr).2⟩

theorem Staged.pending_of_single {s : Store Hash} (h : Staged s) (hst : s.stageOr = .none) :
    ∀ p ∈ s.loadPending, p.stage = some .l1Done := by
  unfold Staged at h
  rw [hst] at h
  rcases h with h | ⟨-, h⟩
  · rw [h]
    simp
  · exact h

/-- The L1 fanout is the only goroutine of its process. -/
theorem set_single (ht : q.tasks = [t]) (hi : q.tasks[i]? = some t) (t' : Task Hash) :
    q.tasks.set i t' = [t'] := by
  rw [ht] at hi ⊢
  cases i with
  | zero => rfl
  | succ i => simp at hi

/-- **A step of a goroutine keeps the stage invariant.** -/
theorem StageInv.taskEffect (h : StageInv sdk w) (hq : w.proc = some q)
    (hi : q.tasks[i]? = some t) (he : TaskEffect sdk w q t e w' queue t')
    (hI' : Inv sdk (w'.setProc { q with queue, tasks := q.tasks.set i t' })) :
    StageInv sdk (w'.setProc { q with queue, tasks := q.tasks.set i t' }) := by
  have hS := h.staged
  have hpt := h.point q hq
  have htm := List.mem_of_getElem? hi
  obtain ⟨hor, hrec⟩ := he.pending ((h.inv.proc q hq).custody hi) htm
  -- from `l2Partial` on, the records of one stage may be pending in any number
  have hlate : ∀ st, st = .l2Partial ∨ st = .l2Done → w.store.stageOr = st →
      t.kind.reaches = st → Staged w'.store := by
    intro st hcase hst hk
    have hall : (∀ p ∈ w.store.loadPending, p.stage = some st) →
        ∀ p ∈ w'.store.loadPending, p.stage = some st := by
      intro hold r hr
      rcases hrec r hr with hr | hr
      · exact hold r hr
      · rw [hr, hk]
    unfold Staged at hS ⊢
    rw [hor, hst]
    rw [hst] at hS
    rcases hcase with rfl | rfl <;> exact hall hS
  unfold StagePoint at hpt
  rcases h.kind hq htm with ⟨hm, hone, hk, hst⟩ | ⟨hm, hk, hst⟩ | ⟨hm, hk, hst⟩
  · rw [hm] at hpt
    have hset := set_single hone hi t'
    obtain ⟨ha, hcases⟩ := he.store_cases
    have hlen : t'.accepted = false → w'.store.loadAll.length = 1 := by
      intro ha'
      have h1 := hpt.2 t htm ha
      rcases hcases with ⟨p, savedAt, -, hs, -⟩ | ⟨hs | ⟨txid, hs⟩, -⟩ | ⟨p, -, -, rfl⟩
      · rw [hs]; exact h1
      · rw [hs]; exact h1
      · rw [hs]; exact h1
      · rw [Task.afterCommit, if_neg (by rw [hk]; decide)] at ha'
        cases ha'
    refine StageInv.setProc hI' ?_ ?_
    · unfold Staged
      rw [hor, hst]
      cases ha' : t'.accepted with
      | true =>
        -- a committed fanout leaves no record
        have hp := hI'.proc _ rfl
        unfold ProcOK at hp
        dsimp only at hp
        rw [hm] at hp
        refine Or.inl (hp.1.pending_nil ?_)
        dsimp only
        rw [hset]
        intro x hx
        rw [List.mem_singleton.1 hx, ha']
      | false =>
        refine Or.inr ⟨hlen ha', fun r hr => ?_⟩
        rcases hrec r hr with hr | hr
        · exact hS.pending_of_single hst r hr
        · rw [hr, hk]
          rfl
    · unfold StagePoint
      dsimp only
      rw [hm, hset]
      refine ⟨hor.trans hst, fun x hx hax => ?_⟩
      rw [List.mem_singleton.1 hx] at hax
      exact hlen hax
  · refine StageInv.setProc hI' (hlate .l2Partial (Or.inl rfl) hst (by rw [hk]; rfl)) ?_
    unfold StagePoint
    dsimp only
    rw [hm]
    exact hor.trans hst
  · refine StageInv.setProc hI' (hlate .l2Done (Or.inr rfl) hst (by rw [hk]; rfl)) ?_
    unfold StagePoint
    dsimp only
    rw [hm]
    exact hor.trans hst

end TaskSteps

/-- **Every step keeps the stage invariant.** -/
theorem StageInv.step {w : World Hash} (h : StageInv sdk w) (hinj : Function.Injective sdk.txHash)
    {e : Event Hash} (hs : SourceOK sdk w e) (he : WritesOK e)
    (hf : Fresh sdk (w.step sdk e).imported (w.step sdk e).committed) :
    StageInv sdk (w.step sdk e) := by
  have hI' := step_inv h.inv hinj hs hf
  have heff := step_effect sdk w e
  generalize w.step sdk e = w' at heff hI' hf
  cases heff with
  | idle => exact h
  | start => exact ⟨hI', h.staged, by rintro q ⟨⟩; exact fun _ => rfl⟩
  | crash => exact ⟨hI', h.staged, by rintro q ⟨⟩⟩
  | cancel q hq => exact StageInv.setProc hI' h.staged (h.point q hq)
  | configure u q q' hq hst hc =>
    obtain ⟨-, n, f, m, rfl⟩ := configure_ok hc
    exact StageInv.setProc hI' h.staged (h.point q hq)
  | poll utxos q hq hm =>
    have hpt := h.point q hq
    unfold StagePoint at hpt
    rw [hm] at hpt
    exact StageInv.setProc hI' h.staged hpt
  | main ok q w' hq hmain =>
    obtain rfl : ok = true := he
    exact h.mainEffect hq hmain hI'
  | task i te q t t' w' queue hq hi htask => exact h.taskEffect hq hi htask hI'

/-- A store at stage `none` without pending records. -/
theorem StageInv.init {s : Store Hash} (hpend : s.loadPending = []) (hst : s.stageOr = .none)
    (hdist : (s.loadAll.map sdk.outpoint).Nodup) : StageInv sdk (World.init s) where
  inv := init_inv hpend hdist
  staged := staged_of_nil (s := s) hpend (by rw [hst]; simp)
  point q hq := by cases hq

end TxGen
