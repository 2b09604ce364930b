import TxGen.Proof.Concrete
import TxGen.Proof.Steps

/-!
# Outputs worth nothing

`CommitPending` leaves out the outputs worth nothing, and a chain ends at one. What
the UTXO source returns is saved and queued as it is. So the store, the queue and the
running chains are free of them exactly as long as the source's answers are.
-/

namespace TxGen

open Lib

variable {Hash : Type} {sdk : SDK Hash}

/-- A chain that has not returned; `chainsActive` counts these. -/
def Task.running (t : Task Hash) : Bool := t.kind = .sustain && !t.ended

/-- No output worth nothing is stored, queued or the tip of a running chain. No
running chain is refused for it on every tick, and the queue takes the same way
through bootstrap as without such outputs. -/
structure ZeroFree (sdk : SDK Hash) (w : World Hash) : Prop where
  stored : ∀ u ∈ w.store.loadAll, u.value ≠ 0
  queued : ∀ q, w.proc = some q → ∀ u ∈ q.queue, u.value ≠ 0
  tips : ∀ q, w.proc = some q → ∀ t ∈ q.tasks, t.running = true → t.utxo.value ≠ 0
  built : ∀ q, w.proc = some q → ∀ t ∈ q.tasks, t.running = true →
    t.build sdk q.mode ≠ .error .zeroValueUTXO
  path : ∀ q, w.proc = some q → ∀ stage numChains l1Count,
    dispatch stage q.queue.length numChains l1Count =
      (dispatch stage (q.queue.filter (·.value ≠ 0)).length numChains l1Count : Main Hash)

/-- What the wait for the funding UTXO is about to save. -/
def Main.nextSeed : Main Hash → Option UTXO
  | .pushSeed (u :: _) => some u
  | _ => none

/-- The UTXO source has returned no output worth nothing: neither at a start, nor
among those the wait for the funding UTXO is about to save. -/
def ValuedSource (w : World Hash) : Event Hash → Prop
  | .start _ initial => w.proc = none → w.startsWith initial = true → ∀ u ∈ initial, u.value ≠ 0
  | .main _ => ∀ q ∈ w.proc, ∀ u ∈ q.main.nextSeed, u.value ≠ 0
  | _ => True

instance (w : World Hash) : ∀ e, Decidable (ValuedSource w e)
  | .start _ initial => inferInstanceAs
      (Decidable (w.proc = none → w.startsWith initial = true → ∀ u ∈ initial, u.value ≠ 0))
  | .main _ => inferInstanceAs (Decidable (∀ q ∈ w.proc, ∀ u ∈ q.main.nextSeed, u.value ≠ 0))
  | .crash | .cancel | .configure _ | .poll _ | .task _ _ => isTrue trivial

/-! ## Goroutines -/

/-- What a goroutine accounts for is worth something, and its record is that of the
transaction it builds. -/
structure Task.Valued (sdk : SDK Hash) (t : Task Hash) : Prop where
  holds : ∀ u ∈ t.holds, u.value ≠ 0
  record : ∀ p, t.record = some p → ∃ mode, t.build sdk mode = .ok p

theorem Task.Valued.of_wait {t : Task Hash} (hpc : t.pc = .wait) (h : t.utxo.value ≠ 0) :
    t.Valued sdk := by
  constructor
  · intro u hu
    rw [Task.holds, hpc] at hu
    rw [List.mem_singleton.1 hu]
    exact h
  · intro p hp
    rw [Task.record, hpc] at hp
    cases hp

theorem Task.Valued.utxo {t : Task Hash} (h : t.Valued sdk) (hr : t.running = true) :
    t.utxo.value ≠ 0 := by
  apply h.holds
  obtain ⟨kind, utxo, n, attempt, pc⟩ := t
  cases pc <;> simp_all [Task.running, Task.ended, Task.holds]

theorem Task.Valued.outputs {t : Task Hash} (h : t.Valued sdk) : ∀ u ∈ t.outputs, u.value ≠ 0 := by
  intro u hu
  apply h.holds
  obtain ⟨kind, utxo, n, attempt, pc⟩ := t
  cases pc <;> simp_all [Task.outputs, Task.holds]

theorem Task.record_afterCommit (t : Task Hash) (p : PendingBroadcast Hash) :
    (t.afterCommit p).record = none := by
  unfold Task.afterCommit
  repeat' split
  all_goals rfl

/-- A step of a goroutine keeps its UTXO, or puts it back on the queue. -/
theorem TaskEffect.valued {w w' : World Hash} {q : Proc Hash} {t t' : Task Hash} {e : TaskEvent}
    {queue : List UTXO} (he : TaskEffect sdk w q t e w' queue t') (h : t.Valued sdk)
    (hqueue : ∀ u ∈ q.queue, u.value ≠ 0) :
    t'.Valued sdk ∧ ∀ u ∈ queue, u.value ≠ 0 := by
  have hpush : t.utxo.value ≠ 0 → ∀ u ∈ Queue.push q.queue t.utxo, u.value ≠ 0 := by
    intro h0 u hu
    rcases List.mem_cons.1 ((Queue.push_perm q.queue t.utxo).mem_iff.1 hu) with rfl | hu
    · exact h0
    · exact hqueue u hu
  have hutxo : t.holds = [t.utxo] → t.utxo.value ≠ 0 := by
    intro heq
    apply h.holds
    rw [heq]
    exact List.mem_singleton_self _
  have hone : t.holds = [t.utxo] → ∀ u ∈ [t.utxo], u.value ≠ 0 := by
    intro heq
    rw [← heq]
    exact h.holds
  cases he with
  | save p savedAt hpc hb =>
    refine ⟨⟨hone (by rw [Task.holds, hpc]), fun p' hp' => ⟨q.mode, ?_⟩⟩, hqueue⟩
    cases hp'
    exact hb
  | stop e hpc | commitFail p hpc =>
    refine ⟨⟨hone (by rw [Task.holds, hpc]), fun p' hp' => ?_⟩, hqueue⟩
    cases hp'
  | giveUp e err hpc | clearLast p ok hpc =>
    refine ⟨⟨fun u hu => ?_, fun p' hp' => ?_⟩, hpush (hutxo (by rw [Task.holds, hpc]))⟩
    · cases hu
    · cases hp'
  | broadcast p o hpc =>
    have hrec : ∃ mode, t.build sdk mode = .ok p := h.record p (by rw [Task.record, hpc])
    have hh := hone (by rw [Task.holds, hpc])
    refine ⟨?_, hqueue⟩
    cases o with
    | accepted | rejected | lost =>
      refine ⟨hh, fun p' hp' => ?_⟩
      cases hp'
      exact hrec
  | clear p ok attempt hpc =>
    exact ⟨.of_wait rfl (hutxo (by rw [Task.holds, hpc])), hqueue⟩
  | commit p hpc =>
    obtain ⟨mode, hb⟩ := h.record p (by rw [Task.record, hpc])
    refine ⟨⟨fun u hu => ?_, fun p' hp' => ?_⟩, hqueue⟩
    · rw [Task.holds_afterCommit hb] at hu
      simpa using (List.mem_filter.1 hu).2
    · rw [Task.record_afterCommit] at hp'
      cases hp'

/-- A UTXO worth something is not refused for being worth nothing. -/
theorem sustainPending_ne_zeroValue {u : UTXO} {mode : Mode Hash} (h : u.value ≠ 0) :
    sustainPending sdk u mode ≠ .error .zeroValueUTXO := by
  intro he
  rcases bind_error he with he | ⟨⟨tx, next⟩, -, he⟩
  · rw [buildSustain, if_neg h] at he
    rcases bind_error he with he | ⟨input, -, he⟩
    · unfold newInput at he
      split at he <;> cases he
    rcases bind_error he with he | ⟨tx, -, he⟩
    · unfold finalize at he
      split at he
      · cases he
      · split at he <;> cases he
    · cases he
  · cases he

/-! ## The process -/

/-- The memory of a process is free of outputs worth nothing. -/
structure Proc.Valued (sdk : SDK Hash) (q : Proc Hash) : Prop where
  queue : ∀ u ∈ q.queue, u.value ≠ 0
  tasks : ∀ t ∈ q.tasks, t.Valued sdk
  persist : ∀ rest, q.main = .persist rest → ∀ u ∈ rest, u.value ≠ 0

/-- The invariant: nothing stored or in memory is worth nothing. -/
structure Valued (sdk : SDK Hash) (w : World Hash) : Prop where
  stored : ∀ u ∈ w.store.loadAll, u.value ≠ 0
  proc : ∀ q, w.proc = some q → q.Valued sdk

namespace Valued

variable {w w' : World Hash} {q : Proc Hash}

theorem of_setProc (hs : ∀ u ∈ w.store.loadAll, u.value ≠ 0) (hq : q.Valued sdk) :
    Valued sdk (w.setProc q) := by
  refine ⟨hs, fun q' h => ?_⟩
  cases h
  exact hq

theorem importUTXO (hs : ∀ u ∈ w.store.loadAll, u.value ≠ 0) {v : UTXO} (hv : v.value ≠ 0) :
    ∀ u ∈ (w.importUTXO v).store.loadAll, u.value ≠ 0 := by
  intro u hu
  rcases Table.mem_insert.1 hu with rfl | ⟨-, hu⟩
  · exact hv
  · exact hs u hu

theorem commit (hs : ∀ u ∈ w.store.loadAll, u.value ≠ 0) (p : PendingBroadcast Hash) :
    ∀ u ∈ (w.commit p).store.loadAll, u.value ≠ 0 := by
  intro u hu
  rcases Store.mem_commitPending hu with ⟨-, h0⟩ | hu
  · exact h0
  · exact hs u hu

/-- **A step of the main goroutine** that saves nothing worth nothing. -/
theorem mainStep (h : Valued sdk w) (hq : w.proc = some q) (ok : Bool)
    (hseed : ∀ u rest, q.main = .pushSeed (u :: rest) → u.value ≠ 0) :
    Valued sdk (w.mainStep q ok) := by
  have hv := h.proc q hq
  have he := mainStep_effect w q ok
  constructor
  · rcases he.history with hquiet | ⟨u, rest, q', hm, hw⟩ | ⟨p, rest, changed, unknown, q', -, -, hw⟩
    · rcases hquiet.store with hs | ⟨st, hs⟩ <;> rw [hs] <;> exact h.stored
    · rw [hw]
      apply importUTXO h.stored
      rcases hm with hm | hm
      · exact hv.persist _ hm u List.mem_cons_self
      · exact hseed u rest hm
    · rw [hw]
      exact commit h.stored p
  · intro q' hq'
    refine ⟨fun u hu => ?_, fun t ht => ?_, fun rest hm => ?_⟩
    · rcases mainStep_queue hq hq' hu with hu | hu | ⟨t, ht, hu⟩ | ⟨rest, hm⟩
      · exact hv.queue u hu
      · exact h.stored u hu
      · exact (hv.tasks t ht).outputs u hu
      · exact hseed u rest hm
    · rcases he.tasks hq hq' t ht with ht | ⟨hpc, hu, -⟩
      · exact hv.tasks t ht
      · exact .of_wait hpc (hv.queue _ hu)
    · obtain ⟨us, hus, hsub⟩ := he.of_persist hq hq' hm
      exact fun u hu => hv.persist us hus u (hsub hu)

theorem step (h : Valued sdk w) (e : Event Hash) (he : ValuedSource w e) :
    Valued sdk (w.step sdk e) := by
  have hse := step_effect sdk w e
  generalize hw' : w.step sdk e = w' at hse ⊢
  cases hse with
  | idle => exact h
  | start o initial hw hs =>
    have hinit := he hw hs
    have hqueue : ∀ u ∈ (if initial = [] then w.store.loadAll else initial), u.value ≠ 0 := by
      split_ifs
      · exact h.stored
      · exact hinit
    have hq : ∀ u ∈ (Proc.new o w.store.loadAll initial).queue, u.value ≠ 0 :=
      fun u hu => hqueue u ((Queue.restore_perm _).mem_iff.1 hu)
    refine ⟨h.stored, fun q hp => ?_⟩
    cases hp
    refine ⟨hq, fun t ht => ?_, fun rest hm u hu => ?_⟩
    · cases ht
    · have hrest : rest = if initial = [] then [] else (Proc.new o w.store.loadAll initial).queue := by
        cases hm
        rfl
      by_cases hi : initial = []
      · rw [hrest, if_pos hi] at hu
        cases hu
      · rw [hrest, if_neg hi] at hu
        exact hq u hu
  | crash q hq => exact ⟨h.stored, fun q' hq' => by cases hq'⟩
  | cancel q hq =>
    have hv := h.proc q hq
    exact of_setProc h.stored ⟨hv.queue, hv.tasks, hv.persist⟩
  | configure u q q' hq hst hc =>
    have hv := h.proc q hq
    obtain ⟨-, n, f, m, rfl⟩ := configure_ok hc
    exact of_setProc h.stored ⟨hv.queue, hv.tasks, hv.persist⟩
  | poll utxos q hq hm =>
    have hv := h.proc q hq
    refine of_setProc h.stored ⟨hv.queue, hv.tasks, fun rest hr => ?_⟩
    cases hr
  | main ok q w' hq =>
    rw [step_main hq] at hw'
    rw [← hw']
    exact h.mainStep hq ok fun u rest hm => he q hq u (by rw [hm]; rfl)
  | task i e q t t' w' queue hq hi ht =>
    have hv := h.proc q hq
    obtain ⟨ht', hqueue⟩ := ht.valued (hv.tasks t (List.mem_of_getElem? hi)) hv.queue
    refine ⟨?_, fun q' hq' => ?_⟩
    · show ∀ u ∈ w'.store.loadAll, u.value ≠ 0
      rcases ht.store_cases.2 with ⟨p, at', -, hs, -⟩ | ⟨hs | ⟨txid, hs⟩, -⟩ | ⟨p, -, rfl, -⟩
      · rw [hs]
        exact h.stored
      · rw [hs]
        exact h.stored
      · rw [hs]
        exact h.stored
      · exact commit h.stored p
    · cases hq'
      exact ⟨hqueue, forall_set hv.tasks ht', hv.persist⟩

/-- Nothing worth nothing is in sight. -/
theorem zeroFree (h : Valued sdk w) : ZeroFree sdk w where
  stored := h.stored
  queued q hq := (h.proc q hq).queue
  tips q hq t ht hr := ((h.proc q hq).tasks t ht).utxo hr
  built q hq t ht hr := by
    have h0 := ((h.proc q hq).tasks t ht).utxo hr
    have hk : t.kind = .sustain := by
      simp only [Task.running, Bool.and_eq_true, decide_eq_true_eq] at hr
      exact hr.1
    rw [Task.build, hk]
    exact sustainPending_ne_zeroValue h0
  path q hq stage n l := by
    have hfilter : q.queue.filter (·.value ≠ 0) = q.queue :=
      List.filter_eq_self.2 (by simpa using (h.proc q hq).queue)
    rw [hfilter]

end Valued

/-- What the source has returned shows in the queue. -/
theorem ZeroFree.source {w : World Hash} {e : Event Hash} (h : ZeroFree sdk (w.step sdk e)) :
    ValuedSource w e := by
  cases e with
  | start o initial =>
    intro hw hs u hu
    rw [step_start hw, if_pos hs] at h
    apply h.queued _ rfl
    apply (Queue.restore_perm _).mem_iff.2
    have hne : initial ≠ [] := List.ne_nil_of_mem hu
    rw [if_neg hne]
    exact hu
  | main ok =>
    intro q hq u hu
    obtain ⟨rest, hm⟩ : ∃ rest, q.main = .pushSeed (u :: rest) := by
      unfold Main.nextSeed at hu
      split at hu
      · rename_i v rest hm
        cases hu
        exact ⟨rest, hm⟩
      · cases hu
    rw [step_main hq, World.mainStep, hm] at h
    have hpush : u ∈ Queue.push q.queue u := (Queue.push_perm q.queue u).mem_iff.2 List.mem_cons_self
    cases ok with
    | true => exact h.queued _ rfl u hpush
    | false => exact h.queued _ rfl u hpush
  | _ => trivial

/-- **Outputs worth nothing stay out exactly when the source returns none.** -/
theorem zero_free_iff_valued_source (sdk : SDK Hash) {s : Store Hash}
    (hs : ∀ u ∈ s.loadAll, u.value ≠ 0) (es : List (Event Hash)) :
    Always (World.step sdk) (ZeroFree sdk) (World.init s) es ↔
      Along (World.step sdk) ValuedSource (World.init s) es := by
  apply always_iff_along (J := Valued sdk)
  · exact fun w e h he => h.step e he
  · exact fun w h => h.zeroFree
  · exact fun w e _ h => h.source
  · exact ⟨hs, fun q hq => by cases hq⟩

namespace Concrete

/-- The source returns the funding UTXO and the last output of an exhausted chain. -/
def leftoverRun : List (Event Bytes) :=
  .start (options 7 10 1) [funding 0 1000, funding 1 0] :: mains 9

/-- The source first returns nothing, then the funding UTXO. -/
def seededRun : List (Event Bytes) :=
  .start (options 7 10 1) [] :: mains 3 ++ .poll [funding 0 1000] :: mains 4

end Concrete

/-- The leftover is queued and stored, a chain runs from it that cannot build, and
the funding UTXO is not fanned out. -/
theorem leftover_becomes_chain :
    (∃ q ∈ (Concrete.runEmpty (Concrete.leftoverRun.take 1)).proc, Concrete.funding 1 0 ∈ q.queue ∧
      (dispatch .none q.queue.length q.numChains q.l1Count : Main Bytes) = .markDone ∧
      (dispatch .none 1 q.numChains q.l1Count : Main Bytes) = .full) ∧
    Concrete.funding 1 0 ∈ (Concrete.runEmpty Concrete.leftoverRun).store.loadAll ∧
    ∃ q ∈ (Concrete.runEmpty Concrete.leftoverRun).proc, ∃ t ∈ q.tasks,
      t.running = true ∧ t.utxo = Concrete.funding 1 0 ∧
      t.build Concrete.plainSDK q.mode = .error .zeroValueUTXO := by
  decide +kernel

/-- While the source returns nothing worth nothing, there is none. -/
theorem seeded_run_zero_free :
    Always (World.step Concrete.plainSDK) (ZeroFree Concrete.plainSDK)
      (World.init Store.empty) Concrete.seededRun :=
  (zero_free_iff_valued_source Concrete.plainSDK (by decide +kernel) Concrete.seededRun).2
    (by decide +kernel)

end TxGen
