import TxGen.Proof.Custody

/-!
# What a step can do

The steps of the world, inverted once. `TaskEffect` lists what a step of a spending
goroutine does to the store, the record of events, the queue and the goroutine;
`Grows` says that the record of events only grows.
-/

namespace TxGen

open Lib

variable {Hash : Type} {sdk : SDK Hash}

/-! ## Spending goroutines -/

/-- What a step of goroutine `t` of process `q` leads to: the world around the
process, the queue and the goroutine. -/
inductive TaskEffect (sdk : SDK Hash) (w : World Hash) (q : Proc Hash) (t : Task Hash) :
    TaskEvent → World Hash → List UTXO → Task Hash → Prop
  /-- the record is written -/
  | save (p : PendingBroadcast Hash) (savedAt : ℕ) (hpc : t.pc = .wait)
      (hb : t.build sdk q.mode = .ok p) (hid : p.txID ≠ []) :
      TaskEffect sdk w q t (.save true savedAt)
        { w with store := w.store.savePending { p with savedAt } } q.queue { t with pc := .saved p }
  /-- a chain returns: its record could not be written, or its context is canceled -/
  | stop (e : TaskEvent) (hpc : t.pc = .wait) (hk : t.kind = .sustain) :
      TaskEffect sdk w q t e w q.queue { t with pc := .stopped }
  /-- a fanout is given up before its record is written -/
  | giveUp (e : TaskEvent) (err : FanoutError) (hpc : t.pc = .wait) (hk : t.kind ≠ .sustain) :
      TaskEffect sdk w q t e w (Queue.push q.queue t.utxo) { t with pc := .requeued err }
  | broadcast (p : PendingBroadcast Hash) (o : Outcome) (hpc : t.pc = .saved p) :
      TaskEffect sdk w q t (.broadcast o)
        { w with
          sent := w.sent ++ [(w.life, p)]
          accepted := if o = Outcome.rejected then w.accepted else w.accepted ++ [p] }
        q.queue { t with pc := if o = Outcome.accepted then .accepted p else .rejected p }
  /-- the record of a failed broadcast is cleared, or that write fails -/
  | clear (p : PendingBroadcast Hash) (ok : Bool) (attempt : ℕ) (hpc : t.pc = .rejected p) :
      TaskEffect sdk w q t (.clear ok)
        (if ok then { w with store := w.store.clearPending p.txID } else w) q.queue
        { t with pc := .wait, attempt }
  /-- so, and the attempts of a fanout are used up -/
  | clearLast (p : PendingBroadcast Hash) (ok : Bool) (hpc : t.pc = .rejected p)
      (hk : t.kind ≠ .sustain) :
      TaskEffect sdk w q t (.clear ok)
        (if ok then { w with store := w.store.clearPending p.txID } else w)
        (Queue.push q.queue t.utxo) { t with pc := .requeued .broadcast }
  | commit (p : PendingBroadcast Hash) (hpc : t.pc = .accepted p) :
      TaskEffect sdk w q t (.commit true) (w.commit p) q.queue (t.afterCommit p)
  | commitFail (p : PendingBroadcast Hash) (hpc : t.pc = .accepted p) :
      TaskEffect sdk w q t (.commit false) w q.queue { t with pc := .stopped }

/-- A goroutine that has ended takes no step. -/
theorem TaskEffect.not_ended {w w' : World Hash} {q : Proc Hash} {t t' : Task Hash} {e : TaskEvent}
    {queue : List UTXO} (h : TaskEffect sdk w q t e w' queue t') : t.ended = false := by
  cases h with
  | save p savedAt hpc | stop e hpc | giveUp e err hpc | broadcast p o hpc | clear p ok a hpc
  | clearLast p ok hpc | commit p hpc | commitFail p hpc => simp [Task.ended, hpc]

/-- A step of a goroutine pushes at most one UTXO on the queue. -/
theorem TaskEffect.queue_cases {w w' : World Hash} {q : Proc Hash} {t t' : Task Hash} {e : TaskEvent}
    {queue : List UTXO} (h : TaskEffect sdk w q t e w' queue t') :
    queue = q.queue ∨ ∃ u, queue = Queue.push q.queue u := by
  cases h with
  | giveUp | clearLast => exact Or.inr ⟨_, rfl⟩
  | save | stop | broadcast | clear | commit | commitFail => exact Or.inl rfl

/-- What a step of a goroutine does to the store: it writes the record of the
transaction it builds, keeps or clears records, or commits the accepted one. -/
theorem TaskEffect.store_cases {w w' : World Hash} {q : Proc Hash} {t t' : Task Hash}
    {e : TaskEvent} {queue : List UTXO} (h : TaskEffect sdk w q t e w' queue t') :
    t.accepted = false ∧
      ((∃ p savedAt, t.build sdk q.mode = .ok p ∧
          w'.store = w.store.savePending { p with savedAt } ∧ w'.committed = w.committed ∧
          t'.accepted = false) ∨
        ((w'.store = w.store ∨ ∃ txid, w'.store = w.store.clearPending txid) ∧
          w'.committed = w.committed ∧ t'.accepted = false) ∨
        ∃ p, t.pc = .accepted p ∧ w' = w.commit p ∧ t' = t.afterCommit p) := by
  have hcleared : ∀ (ok : Bool) (txid : Bytes) (w₀ : World Hash),
      w₀ = (if ok then { w with store := w.store.clearPending txid } else w) →
      (w₀.store = w.store ∨ ∃ txid, w₀.store = w.store.clearPending txid) ∧
        w₀.committed = w.committed := by
    rintro (_ | _) txid w₀ rfl
    · exact ⟨Or.inl rfl, rfl⟩
    · exact ⟨Or.inr ⟨txid, rfl⟩, rfl⟩
  cases h with
  | save p savedAt hpc hb =>
    exact ⟨by rw [Task.accepted, hpc], Or.inl ⟨p, savedAt, hb, rfl, rfl, rfl⟩⟩
  | stop e hpc | giveUp e err hpc | commitFail p hpc =>
    exact ⟨by rw [Task.accepted, hpc], Or.inr (Or.inl ⟨Or.inl rfl, rfl, rfl⟩)⟩
  | broadcast p o hpc =>
    refine ⟨by rw [Task.accepted, hpc], Or.inr (Or.inl ⟨Or.inl rfl, rfl, ?_⟩)⟩
    cases o <;> rfl
  | clear p ok attempt hpc | clearLast p ok hpc =>
    obtain ⟨hs, hc⟩ := hcleared ok p.txID _ rfl
    exact ⟨by rw [Task.accepted, hpc], Or.inr (Or.inl ⟨hs, hc, rfl⟩)⟩
  | commit p hpc => exact ⟨by rw [Task.accepted, hpc], Or.inr (Or.inr ⟨p, hpc, rfl, rfl⟩)⟩

/-- **Inversion of a goroutine's step.** -/
theorem taskStep_effect (sdk : SDK Hash) (w : World Hash) (q : Proc Hash) (i : ℕ) (e : TaskEvent) :
    w.taskStep sdk q i e = w ∨ ∃ t w' queue t', q.tasks[i]? = some t ∧
      TaskEffect sdk w q t e w' queue t' ∧
      w.taskStep sdk q i e = w'.setProc { q with queue, tasks := q.tasks.set i t' } := by
  unfold World.taskStep
  split
  · exact Or.inl rfl
  rename_i t hi
  split
  case h_1 ok savedAt hpc =>
    unfold World.taskSave
    split
    · split_ifs with hk
      · exact Or.inl rfl
      · exact Or.inr ⟨t, _, _, _, hi, .giveUp _ _ hpc hk, rfl⟩
    · rename_i p hb
      split_ifs with hok hk
      · obtain ⟨rfl, hid⟩ := hok
        exact Or.inr ⟨t, _, _, _, hi, .save p savedAt hpc hb hid, rfl⟩
      · exact Or.inr ⟨t, _, _, _, hi, .stop _ hpc hk, rfl⟩
      · exact Or.inr ⟨t, _, _, _, hi, .giveUp _ _ hpc hk, rfl⟩
  case h_2 o p hpc => exact Or.inr ⟨t, _, _, _, hi, .broadcast p o hpc, rfl⟩
  case h_3 ok p hpc =>
    unfold World.taskClear
    dsimp only
    by_cases hk : t.kind = .sustain
    · rw [if_pos hk]
      exact Or.inr ⟨t, _, _, _, hi, .clear p ok t.attempt hpc, rfl⟩
    rw [if_neg hk]
    by_cases hatt : t.attempt < bootstrapAttempts
    · rw [if_pos hatt]
      exact Or.inr ⟨t, _, _, _, hi, .clear p ok (t.attempt + 1) hpc, rfl⟩
    · rw [if_neg hatt]
      exact Or.inr ⟨t, _, _, _, hi, .clearLast p ok hpc hk, rfl⟩
  case h_4 ok p hpc =>
    unfold World.taskCommit
    split_ifs with hok
    · subst hok
      exact Or.inr ⟨t, _, _, _, hi, .commit p hpc, rfl⟩
    · have hok' : ok = false := by simpa using hok
      subst hok'
      exact Or.inr ⟨t, _, _, _, hi, .commitFail p hpc, rfl⟩
  case h_5 hpc =>
    unfold World.taskGiveUp
    split_ifs with hc hk hatt
    · exact Or.inl rfl
    · exact Or.inr ⟨t, _, _, _, hi, .stop _ hpc hk, rfl⟩
    · exact Or.inr ⟨t, _, _, _, hi, .giveUp _ _ hpc hk, rfl⟩
    · exact Or.inl rfl
  case h_6 => exact Or.inl rfl

/-! ## Events -/

section Events

variable {w : World Hash} {q : Proc Hash}

theorem step_main (hq : w.proc = some q) (ok : Bool) : w.step sdk (.main ok) = w.mainStep q ok := by
  cases w
  cases hq
  rfl

theorem step_task (hq : w.proc = some q) (i : ℕ) (e : TaskEvent) :
    w.step sdk (.task i e) = w.taskStep sdk q i e := by
  cases w
  cases hq
  rfl

theorem step_crash (hq : w.proc = some q) : w.step sdk .crash = w.exit := by
  cases w
  cases hq
  rfl

theorem step_cancel (hq : w.proc = some q) :
    w.step sdk .cancel = w.setProc { q with ctxDone := true } := by
  cases w
  cases hq
  rfl

theorem step_configure (hq : w.proc = some q) (hst : q.main.starting = false)
    {u : BootstrapUpdate} {q' : Proc Hash} (hc : q.configureBootstrap u = .ok q') :
    w.step sdk (.configure u) = w.setProc q' := by
  simp only [World.step, hq, hst, hc]
  rfl

theorem step_start (hq : w.proc = none) (o : Options Hash) (initial : List UTXO) :
    w.step sdk (.start o initial) = if w.startsWith initial then
      { w with proc := some (Proc.new o w.store.loadAll initial), life := w.life + 1 } else w := by
  cases w
  cases hq
  rfl

/-- While a process runs, no other is started. -/
theorem step_start_some (hq : w.proc = some q) (o : Options Hash) (initial : List UTXO) :
    w.step sdk (.start o initial) = w := by
  cases w
  cases hq
  rfl

/-- Without a process nothing happens but a start. -/
theorem step_none (hq : w.proc = none) {e : Event Hash} (he : ∀ o initial, e ≠ .start o initial) :
    w.step sdk e = w := by
  cases e with
  | start o initial => exact absurd rfl (he o initial)
  | _ => simp only [World.step, hq]

end Events

/-! ## The record of events -/

/-- The record of `w'` continues that of `w`. -/
structure Grows (w w' : World Hash) : Prop where
  sent : w.sent ⊆ w'.sent
  accepted : w.accepted ⊆ w'.accepted
  imported : w.imported ⊆ w'.imported
  committed : w.committed ⊆ w'.committed
  replayed : w.replayed ⊆ w'.replayed

namespace Grows

variable {w w' w'' : World Hash}

theorem refl (w : World Hash) : Grows w w := by constructor <;> exact fun _ h => h

theorem setProc (h : Grows w w') (q : Proc Hash) : Grows w (w'.setProc q) :=
  ⟨h.sent, h.accepted, h.imported, h.committed, h.replayed⟩

theorem importUTXO (w : World Hash) (u : UTXO) : Grows w (w.importUTXO u) := by
  refine ⟨fun _ h => h, fun _ h => h, fun x hx => ?_, fun _ h => h, fun _ h => h⟩
  show x ∈ (if u ∈ w.store.loadAll then w.imported else w.imported ++ [u])
  split_ifs
  · exact hx
  · exact List.mem_append_left _ hx

theorem commit (w : World Hash) (p : PendingBroadcast Hash) : Grows w (w.commit p) :=
  ⟨fun _ h => h, fun _ h => h, fun _ h => h, fun _ h => List.mem_append_left _ h, fun _ h => h⟩

theorem taskEffect {q : Proc Hash} {t t' : Task Hash} {e : TaskEvent} {queue : List UTXO}
    (h : TaskEffect sdk w q t e w' queue t') : Grows w w' := by
  cases h with
  | save | stop | giveUp | commitFail =>
    exact ⟨fun _ h => h, fun _ h => h, fun _ h => h, fun _ h => h, fun _ h => h⟩
  | broadcast p o =>
    refine ⟨fun _ h => List.mem_append_left _ h, fun x hx => ?_, fun _ h => h, fun _ h => h,
      fun _ h => h⟩
    show x ∈ (if o = Outcome.rejected then w.accepted else w.accepted ++ [p])
    split_ifs
    · exact hx
    · exact List.mem_append_left _ hx
  | clear p ok | clearLast p ok =>
    cases ok <;> exact ⟨fun _ h => h, fun _ h => h, fun _ h => h, fun _ h => h, fun _ h => h⟩
  | commit p => exact Grows.commit w p

end Grows

/-! ## The main goroutine -/

/-- What a step of the main goroutine of process `q` leads to. -/
inductive MainEffect (w : World Hash) (q : Proc Hash) : Bool → World Hash → Prop
  /-- the goroutine waits for something, or has returned -/
  | wait (ok : Bool) : MainEffect w q ok w
  | persist (u : UTXO) (rest : List UTXO) (hm : q.main = .persist (u :: rest)) :
      MainEffect w q true ((w.importUTXO u).setProc { q with main := .persist rest })
  | persisted (ok : Bool) (hm : q.main = .persist []) :
      MainEffect w q ok (w.setProc { q with
        main := .replay (w.store.loadPending.insertionSort replayBefore) false 0 })
  /-- a store write of `New` fails -/
  | newFails (hm : q.main.starting = true) : MainEffect w q false w.exit
  | replayUnknown (ok : Bool) (p : PendingBroadcast Hash) (rest : List (PendingBroadcast Hash))
      (changed : Bool) (unknown : ℕ) (hm : q.main = .replay (p :: rest) changed unknown)
      (hp : p.spent = [] ∧ p.created = []) :
      MainEffect w q ok (w.setProc { q with main := .replay rest changed (unknown + 1) })
  | replayCommit (p : PendingBroadcast Hash) (rest : List (PendingBroadcast Hash))
      (changed : Bool) (unknown : ℕ) (hm : q.main = .replay (p :: rest) changed unknown)
      (hp : ¬(p.spent = [] ∧ p.created = [])) :
      MainEffect w q true ({ w.commit p with replayed := w.replayed ++ [p] }.setProc { q with
        main := match p.stage with
          | some stage => .replayStage stage rest true unknown
          | none => .replay rest true unknown })
  | replayStage (ok : Bool) (stage : Stage) (rest : List (PendingBroadcast Hash)) (changed : Bool)
      (unknown : ℕ) (hm : q.main = .replayStage stage rest changed unknown) :
      MainEffect w q ok
        ((w.writeStage ok stage).setProc { q with stage, main := .replay rest changed unknown })
  | restored (ok changed : Bool) (hm : q.main = .replay [] changed 0) :
      MainEffect w q ok (w.finishRestore q changed)
  | restoredUnknown (ok changed : Bool) (unknown : ℕ) (hm : q.main = .replay [] changed unknown)
      (hu : unknown ≠ 0) :
      MainEffect w q ok
        ((w.writeStage ok .unknown).finishRestore { q with stage := .unknown } changed)
  | waitForSeed (ok : Bool) (hm : q.main = .ready) (hst : q.stage = .none) (hqueue : q.queue = []) :
      MainEffect w q ok (w.setProc { q with main := .waitForSeed })
  | ready (ok : Bool) (hm : q.main = .ready) (h : ¬(q.stage = .none ∧ q.queue = [])) :
      MainEffect w q ok (w.setProc { q with main := .lock q.stage })
  | pushSeed (u : UTXO) (rest : List UTXO) (hm : q.main = .pushSeed (u :: rest)) :
      MainEffect w q true ((w.importUTXO u).setProc
        { q with queue := Queue.push q.queue u, main := .pushSeed rest })
  | seeded (ok : Bool) (hm : q.main = .pushSeed []) :
      MainEffect w q ok (w.setProc { q with main := .lock .none })
  | lock (ok : Bool) (stage : Stage) (hm : q.main = .lock stage) :
      MainEffect w q ok (w.setProc { q with
        bootstrapLocked := true
        main := dispatch stage q.queue.length q.numChains q.l1Count })
  | beginL1 (ok : Bool) (seed : UTXO) (rest : List UTXO) (hm : q.main = .full)
      (hpop : Queue.pop q.queue = some (seed, rest)) :
      MainEffect w q ok ((w.writeStage ok .none).setProc { q with
        stage := .none
        queue := rest
        tasks := [⟨.l1, seed, q.l1Count, 1, .wait⟩]
        main := .l1 })
  | endL1 (ok : Bool) (t : Task Hash) (outputs : List UTXO) (hm : q.main = .l1)
      (ht : q.tasks = [t]) (hpc : t.pc = .done outputs) :
      MainEffect w q ok ((w.writeStage ok .l1Done).setProc { q with
        stage := .l1Done
        queue := Queue.pushAll q.queue outputs
        tasks := []
        main := .l2Start })
  | beginL2 (ok : Bool) (hm : q.main = .l2Start) (hne : Queue.drain q.queue ≠ [])
      (hle : ((Queue.drain q.queue).length : ℤ) ≤ q.numChains) :
      MainEffect w q ok ((w.writeStage ok .l2Partial).setProc { q with
        stage := .l2Partial
        queue := []
        tasks := (Queue.drain q.queue).mapIdx fun i parent =>
          ⟨.l2, parent, l2FanoutSizeForParent q.numChains (Queue.drain q.queue).length i, 1, .wait⟩
        main := .l2 })
  | endL2 (ok : Bool) (hm : q.main = .l2) (hacc : q.tasks.all Task.accepted = true)
      (hlen : ((q.tasks.flatMap Task.outputs).length : ℤ) = q.numChains) :
      MainEffect w q ok ((w.writeStage ok .l2Done).setProc { q with
        stage := .l2Done
        queue := Queue.pushAll q.queue (q.tasks.flatMap Task.outputs)
        tasks := []
        main := .chains })
  | markDone (ok : Bool) (hm : q.main = .markDone) :
      MainEffect w q ok
        ((w.writeStage ok .l2Done).setProc { q with stage := .l2Done, main := .chains })
  | startChain (ok : Bool) (u : UTXO) (rest : List UTXO) (hm : q.main = .chains)
      (hpop : Queue.pop q.queue = some (u, rest)) :
      MainEffect w q ok (w.setProc
        { q with queue := rest, tasks := q.tasks ++ [⟨.sustain, u, 0, 1, .wait⟩] })
  /-- `Run` returns an error, before its L1 fanout is committed -/
  | fail (ok : Bool) (queue : List UTXO) (e : RunError) (hst : q.main.starting = false)
      (hl1 : q.main = .l1 → ∀ t ∈ q.tasks, t.accepted = false) :
      MainEffect w q ok (w.fail { q with queue } e)
  /-- `Run` returns an error after a write of the stage -/
  | failAt (ok : Bool) (st : Stage) (queue : List UTXO) (e : RunError)
      (hm : (q.main = .full ∧ st = .none) ∨ ((q.main = .l2Start ∨ q.main = .l2) ∧ st = .l2Partial)) :
      MainEffect w q ok ((w.writeStage ok st).fail { q with stage := st, queue } e)

/-- **Inversion of a step of the main goroutine.** -/
theorem mainStep_effect (w : World Hash) (q : Proc Hash) (ok : Bool) :
    MainEffect w q ok (w.mainStep q ok) := by
  unfold World.mainStep
  split
  case h_1 hm => exact .persisted ok hm
  case h_2 u rest hm =>
    cases ok with
    | true => exact .persist u rest hm
    | false => exact .newFails (by rw [hm]; rfl)
  case h_3 changed unknown hm =>
    split_ifs with hu
    · rw [hu] at hm
      exact .restored ok changed hm
    · exact .restoredUnknown ok changed unknown hm hu
  case h_4 p rest changed unknown hm =>
    split_ifs with hp hok
    · exact .replayUnknown ok p rest changed unknown hm hp
    · rw [hok]
      exact .replayCommit p rest changed unknown hm hp
    · have hok' : ok = false := by simpa using hok
      rw [hok']
      exact .newFails (by rw [hm]; rfl)
  case h_5 st rest changed unknown hm => exact .replayStage ok st rest changed unknown hm
  case h_6 hm =>
    split_ifs with h0 hs
    · exact .waitForSeed ok hm h0.1 h0.2
    · exact .fail ok q.queue .noUTXOs (by rw [hm]; rfl) (by rw [hm]; simp)
    · exact .ready ok hm h0
  case h_7 hm =>
    split_ifs
    · exact .fail ok q.queue .canceled (by rw [hm]; rfl) (by rw [hm]; simp)
    · exact .wait ok
  case h_8 hm => exact .seeded ok hm
  case h_9 u rest hm =>
    cases ok with
    | true => exact .pushSeed u rest hm
    | false =>
      exact .fail false (Queue.push q.queue u) .persistFunding (by rw [hm]; rfl) (by rw [hm]; simp)
  case h_10 st hm => exact .lock ok st hm
  case h_11 hm =>
    unfold World.beginL1
    split
    · exact .failAt ok .none q.queue .noUTXOs (Or.inl ⟨hm, rfl⟩)
    · rename_i seed rest hpop
      exact .beginL1 ok seed rest hm hpop
  case h_12 hm =>
    unfold World.endL1
    split
    · rename_i t ht
      have hfail : t.accepted = false → ∀ e, MainEffect w q ok (w.fail q e) := by
        intro ha e
        refine .fail ok q.queue e (by rw [hm]; rfl) fun _ x hx => ?_
        rw [ht, List.mem_singleton] at hx
        rw [hx, ha]
      split
      · rename_i outputs hpc
        exact .endL1 ok t outputs hm ht hpc
      · rename_i hpc
        exact hfail (by rw [Task.accepted, hpc]) _
      · rename_i hpc
        exact hfail (by rw [Task.accepted, hpc]) _
      · exact .wait ok
    · exact .wait ok
  case h_13 hm =>
    unfold World.beginL2
    dsimp only
    split_ifs with hne hle
    · exact .failAt ok .l2Partial [] _ (Or.inr ⟨Or.inl hm, rfl⟩)
    · exact .failAt ok .l2Partial _ _ (Or.inr ⟨Or.inl hm, rfl⟩)
    · exact .beginL2 ok hm hne (not_lt.1 hle)
  case h_14 hm =>
    unfold World.endL2
    dsimp only
    split_ifs with hend hall
    · exact .endL2 ok hm hall.1 hall.2
    · exact .failAt ok .l2Partial _ _ (Or.inr ⟨Or.inr hm, rfl⟩)
    · exact .wait ok
  case h_15 hm => exact .markDone ok hm
  case h_16 hm =>
    split
    · exact .wait ok
    · rename_i u rest hpop
      exact .startChain ok u rest hm hpop
  case h_17 => exact .wait ok

/-- The step from `w` to `w'` records nothing and changes at most the stage in the
store. -/
structure Quiet (w w' : World Hash) : Prop where
  store : w'.store = w.store ∨ ∃ st, w'.store = w.store.setStage st
  life : w'.life = w.life
  sent : w'.sent = w.sent
  accepted : w'.accepted = w.accepted
  imported : w'.imported = w.imported
  committed : w'.committed = w.committed
  replayed : w'.replayed = w.replayed

namespace Quiet

variable {w w' : World Hash}

theorem refl (w : World Hash) : Quiet w w := ⟨Or.inl rfl, rfl, rfl, rfl, rfl, rfl, rfl⟩

theorem setProc (h : Quiet w w') (q : Proc Hash) : Quiet w (w'.setProc q) :=
  ⟨h.store, h.life, h.sent, h.accepted, h.imported, h.committed, h.replayed⟩

theorem writeStage (w : World Hash) (ok : Bool) (st : Stage) : Quiet w (w.writeStage ok st) := by
  cases ok with
  | false => exact refl w
  | true => exact ⟨Or.inr ⟨st, rfl⟩, rfl, rfl, rfl, rfl, rfl, rfl⟩

theorem grows (h : Quiet w w') : Grows w w' where
  sent := by rw [h.sent]; exact fun _ hx => hx
  accepted := by rw [h.accepted]; exact fun _ hx => hx
  imported := by rw [h.imported]; exact fun _ hx => hx
  committed := by rw [h.committed]; exact fun _ hx => hx
  replayed := by rw [h.replayed]; exact fun _ hx => hx

end Quiet

/-- A step of the main goroutine is quiet, imports a UTXO, or commits a pending
record in the replay. -/
theorem MainEffect.history {w w' : World Hash} {q : Proc Hash} {ok : Bool}
    (h : MainEffect w q ok w') :
    Quiet w w' ∨
    (∃ u rest q', (q.main = .persist (u :: rest) ∨ q.main = .pushSeed (u :: rest)) ∧
      w' = (w.importUTXO u).setProc q') ∨
    (∃ p rest changed unknown q', q.main = .replay (p :: rest) changed unknown ∧
      ¬(p.spent = [] ∧ p.created = []) ∧
      w' = { w.commit p with replayed := w.replayed ++ [p] }.setProc q') := by
  cases h with
  | persist u rest hm => exact Or.inr (Or.inl ⟨u, rest, _, Or.inl hm, rfl⟩)
  | pushSeed u rest hm => exact Or.inr (Or.inl ⟨u, rest, _, Or.inr hm, rfl⟩)
  | replayCommit p rest changed unknown hm hp =>
    exact Or.inr (Or.inr ⟨p, rest, changed, unknown, _, hm, hp, rfl⟩)
  | wait => exact Or.inl (Quiet.refl w)
  | newFails => exact Or.inl ⟨Or.inl rfl, rfl, rfl, rfl, rfl, rfl, rfl⟩
  | persisted | replayUnknown | restored | waitForSeed | ready | seeded | lock | startChain | fail =>
    exact Or.inl ((Quiet.refl w).setProc _)
  | replayStage | restoredUnknown | beginL1 | endL1 | beginL2 | endL2 | markDone | failAt =>
    exact Or.inl ((Quiet.writeStage w ok _).setProc _)

/-- The goroutine `t` is one that the main goroutine of `q` starts: an L1 fanout, one of
some L2 fanouts, or a chain. -/
def Task.StartedBy (q : Proc Hash) (t : Task Hash) : Prop :=
  match t.kind with
  | .l1 => q.main = .full ∧ t.n = q.l1Count
  | .l2 => q.main = .l2Start ∧ ∃ parents i : ℕ, i < parents ∧
      t.n = l2FanoutSizeForParent q.numChains parents i
  | .sustain => q.main = .chains

/-- The goroutines after a step of the main goroutine: those before it, or new ones
that spend what was queued. -/
theorem MainEffect.tasks {w w' : World Hash} {q q' : Proc Hash} {ok : Bool}
    (he : MainEffect w q ok w') (hq : w.proc = some q) (h : w'.proc = some q') :
    ∀ t ∈ q'.tasks, t ∈ q.tasks ∨ (t.pc = .wait ∧ t.utxo ∈ q.queue ∧ t.StartedBy q) := by
  intro t ht
  cases he with
  | wait =>
    rw [hq] at h
    cases h
    exact Or.inl ht
  | newFails => cases h
  | endL1 | endL2 | fail | failAt => cases h; cases ht
  | beginL1 ok seed rest hm hpop =>
    cases h
    rw [List.mem_singleton.1 ht]
    exact Or.inr ⟨rfl, (Queue.pop_perm hpop).mem_iff.2 List.mem_cons_self, hm, rfl⟩
  | beginL2 ok hm =>
    cases h
    obtain ⟨i, hi, rfl⟩ := List.mem_mapIdx.1 ht
    exact Or.inr ⟨rfl, (Queue.drain_perm q.queue).mem_iff.1 (List.getElem_mem hi), hm, _, i, hi, rfl⟩
  | startChain ok u rest hm hpop =>
    cases h
    rcases List.mem_append.1 ht with ht | ht
    · exact Or.inl ht
    · rw [List.mem_singleton.1 ht]
      exact Or.inr ⟨rfl, (Queue.pop_perm hpop).mem_iff.2 List.mem_cons_self, hm⟩
  | persist | persisted | replayUnknown | replayCommit | replayStage | restored | restoredUnknown
  | waitForSeed | ready | pushSeed | seeded | lock | markDone =>
    cases h
    exact Or.inl ht

/-- The points `bootstrap` goes on from. -/
theorem dispatch_cases (Hash : Type) (st : Stage) (queued n l : ℤ) :
    (dispatch st queued n l : Main Hash) = .chains ∨ (dispatch st queued n l : Main Hash) = .full ∨
      (dispatch st queued n l : Main Hash) = .l2Start ∨
      (dispatch st queued n l : Main Hash) = .markDone ∨
      ∃ e, (dispatch st queued n l : Main Hash) = .failed e := by
  unfold dispatch resumePartialL2
  cases st <;> dsimp only <;> try split_ifs
  all_goals simp

/-- The main goroutine saves the initial UTXOs only from the start on. -/
theorem MainEffect.of_persist {w w' : World Hash} {q q' : Proc Hash} {ok : Bool}
    (he : MainEffect w q ok w') (hq : w.proc = some q) (h : w'.proc = some q') {rest : List UTXO}
    (hm : q'.main = .persist rest) : ∃ us, q.main = .persist us ∧ rest ⊆ us := by
  cases he with
  | wait =>
    rw [hq] at h
    cases h
    exact ⟨rest, hm, fun _ hu => hu⟩
  | persist u us hus =>
    cases h
    cases hm
    exact ⟨u :: rest, hus, List.subset_cons_self u rest⟩
  | newFails => cases h
  | replayCommit p =>
    cases h
    dsimp only at hm
    split at hm <;> cases hm
  | lock ok st =>
    cases h
    rcases dispatch_cases Hash _ _ _ _ with hd | hd | hd | hd | ⟨e, hd⟩ <;> rw [hd] at hm <;> cases hm
  | startChain ok u us hus =>
    cases h
    rw [hus] at hm
    cases hm
  | persisted | replayUnknown | replayStage | restored | restoredUnknown | waitForSeed | ready
  | pushSeed | seeded | beginL1 | endL1 | beginL2 | endL2 | markDone | fail | failAt =>
    cases h
    cases hm

/-- Where the queue of a process comes from after a step of its main goroutine: the
queue before it, the store, the outputs of its fanouts, or the UTXO source. -/
theorem mainStep_queue {w : World Hash} {q q' : Proc Hash} {ok : Bool} (hq : w.proc = some q)
    (h : (w.mainStep q ok).proc = some q') {u : UTXO} (hu : u ∈ q'.queue) :
    u ∈ q.queue ∨ u ∈ w.store.loadAll ∨ (∃ t ∈ q.tasks, u ∈ t.outputs) ∨
      ∃ rest, q.main = .pushSeed (u :: rest) := by
  have hsame : w.proc = some q' → u ∈ q.queue := by
    intro h'
    rw [hq] at h'
    cases h'
    exact hu
  have hpop : ∀ {v rest}, Queue.pop q.queue = some (v, rest) → u ∈ rest → u ∈ q.queue :=
    fun hp hr => (Queue.pop_perm hp).mem_iff.2 (List.mem_cons_of_mem _ hr)
  have hpushAll : ∀ {us : List UTXO}, u ∈ Queue.pushAll q.queue us → u ∈ us ∨ u ∈ q.queue :=
    fun hp => List.mem_append.1 ((Queue.pushAll_perm q.queue _).mem_iff.1 hp)
  have hrestored : ∀ {w₀ : World Hash} {q₀ : Proc Hash} {changed : Bool},
      w₀.store.loadAll = w.store.loadAll → q₀.queue = q.queue →
      (w₀.finishRestore q₀ changed).proc = some q' → u ∈ q.queue ∨ u ∈ w.store.loadAll := by
    intro w₀ q₀ changed hs hq₀ h'
    cases h'
    cases changed with
    | false => exact Or.inl (hq₀ ▸ hu)
    | true => exact Or.inr (hs ▸ (Queue.restore_perm _).mem_iff.1 hu)
  have hstage : ∀ st, (w.writeStage ok st).store.loadAll = w.store.loadAll := by
    intro st
    cases ok <;> rfl
  -- `MainEffect` says nothing of the queue a failed `Run` leaves, so the step is split again
  rw [World.mainStep.eq_def] at h
  split at h
  case h_2 =>
    split_ifs at h
    · cases h
      exact Or.inl hu
    · cases h
  case h_3 =>
    split_ifs at h
    · exact (hrestored rfl rfl h).imp_right Or.inl
    · refine (hrestored (hstage .unknown) ?_ h).imp_right Or.inl
      rfl
  case h_4 =>
    split_ifs at h <;> cases h <;> exact Or.inl hu
  case h_6 =>
    split_ifs at h <;> cases h <;> exact Or.inl hu
  case h_7 =>
    split_ifs at h
    · cases h
      exact Or.inl hu
    · exact Or.inl (hsame h)
  case h_9 v rest hm =>
    have hv : u ∈ Queue.push q.queue v := by
      split_ifs at h <;> cases h <;> exact hu
    rcases List.mem_cons.1 ((Queue.push_perm q.queue v).mem_iff.1 hv) with rfl | hv
    · exact Or.inr (Or.inr (Or.inr ⟨rest, hm⟩))
    · exact Or.inl hv
  case h_11 =>
    unfold World.beginL1 at h
    split at h
    · cases h
      exact Or.inl hu
    · rename_i hp
      cases h
      exact Or.inl (hpop hp hu)
  case h_12 =>
    unfold World.endL1 at h
    split at h
    · rename_i t ht
      split at h
      · rename_i outputs hpc
        cases h
        rcases hpushAll hu with hu | hu
        · refine Or.inr (Or.inr (Or.inl ⟨t, by rw [ht]; exact List.mem_singleton_self t, ?_⟩))
          rw [Task.outputs, hpc]
          exact hu
        · exact Or.inl hu
      · cases h
        exact Or.inl hu
      · cases h
        exact Or.inl hu
      · exact Or.inl (hsame h)
    · exact Or.inl (hsame h)
  case h_13 =>
    unfold World.beginL2 at h
    dsimp only at h
    split_ifs at h
    -- too many parents are pushed back; otherwise the queue is left empty
    · cases h
      cases hu
    · cases h
      have hu' := List.mem_append.1 ((Queue.pushAll_perm [] _).mem_iff.1 hu)
      exact Or.inl ((Queue.drain_perm q.queue).mem_iff.1 (hu'.resolve_right List.not_mem_nil))
    · cases h
      cases hu
  case h_14 =>
    unfold World.endL2 at h
    dsimp only at h
    have hout : u ∈ Queue.pushAll q.queue (q.tasks.flatMap Task.outputs) →
        u ∈ q.queue ∨ u ∈ w.store.loadAll ∨ (∃ t ∈ q.tasks, u ∈ t.outputs) ∨
          ∃ rest, q.main = .pushSeed (u :: rest) := by
      intro hp
      rcases hpushAll hp with hp | hp
      · exact Or.inr (Or.inr (Or.inl (List.mem_flatMap.1 hp)))
      · exact Or.inl hp
    split_ifs at h
    · cases h
      exact hout hu
    · cases h
      exact hout hu
    · exact Or.inl (hsame h)
  case h_16 =>
    split at h
    · exact Or.inl (hsame h)
    · rename_i hp
      cases h
      exact Or.inl (hpop hp hu)
  case h_17 => exact Or.inl (hsame h)
  all_goals
    cases h
    exact Or.inl hu

/-- The parameters of `q'` are those of `q`, fixed if they were. -/
structure SameParams (q q' : Proc Hash) : Prop where
  numChains : q'.numChains = q.numChains
  fanoutSize : q'.fanoutSize = q.fanoutSize
  mode : q'.mode = q.mode
  locked : q.bootstrapLocked = true → q'.bootstrapLocked = true

theorem SameParams.config_eq {q q' : Proc Hash} (h : SameParams q q') : q'.config = q.config := by
  unfold Proc.config
  rw [h.numChains, h.fanoutSize, h.mode]

/-- The main goroutine does not touch the parameters. -/
theorem MainEffect.params {w w' : World Hash} {q q' : Proc Hash} {ok : Bool}
    (he : MainEffect w q ok w') (hq : w.proc = some q) (h : w'.proc = some q') :
    SameParams q q' := by
  cases he with
  | wait =>
    rw [hq] at h
    cases h
    exact ⟨rfl, rfl, rfl, id⟩
  | lock =>
    cases h
    exact ⟨rfl, rfl, rfl, fun _ => rfl⟩
  | newFails => cases h
  | persist | persisted | replayUnknown | replayCommit | replayStage | restored | restoredUnknown
  | waitForSeed | ready | pushSeed | seeded | beginL1 | endL1 | beginL2 | endL2 | markDone
  | startChain | fail | failAt =>
    cases h
    exact ⟨rfl, rfl, rfl, id⟩

theorem MainEffect.grows {w w' : World Hash} {q : Proc Hash} {ok : Bool}
    (he : MainEffect w q ok w') : Grows w w' := by
  rcases he.history with h | ⟨u, -, q', -, h⟩ | ⟨p, -, -, -, q', -, -, h⟩
  · exact h.grows
  · rw [h]; exact (Grows.importUTXO w u).setProc q'
  · rw [h]
    exact ⟨fun _ h => h, fun _ h => h, fun _ h => h, fun _ h => List.mem_append_left _ h,
      fun _ h => List.mem_append_left _ h⟩

/-! ## Events -/

/-- `ConfigureBootstrap` touches neither the queue nor the goroutines, and succeeds
only before the parameters are fixed. -/
theorem configure_ok {q q' : Proc Hash} {u : BootstrapUpdate} (h : q.configureBootstrap u = .ok q') :
    q.funded = false ∧ ∃ n f m, q' = { q with numChains := n, fanoutSize := f, mode := m } := by
  unfold Proc.configureBootstrap at h
  split at h
  · cases h
  · split_ifs at h with hf
    cases h
    exact ⟨by simpa using hf, _, _, _, rfl⟩

/-- What an event leads to. -/
inductive StepEffect (sdk : SDK Hash) (w : World Hash) : Event Hash → World Hash → Prop
  /-- the event is not enabled, or changes nothing -/
  | idle (e : Event Hash) : StepEffect sdk w e w
  | start (o : Options Hash) (initial : List UTXO) (hw : w.proc = none)
      (hs : w.startsWith initial = true) :
      StepEffect sdk w (.start o initial)
        { w with proc := some (Proc.new o w.store.loadAll initial), life := w.life + 1 }
  | crash (q : Proc Hash) (hq : w.proc = some q) : StepEffect sdk w .crash w.exit
  | cancel (q : Proc Hash) (hq : w.proc = some q) :
      StepEffect sdk w .cancel (w.setProc { q with ctxDone := true })
  | configure (u : BootstrapUpdate) (q q' : Proc Hash) (hq : w.proc = some q)
      (hst : q.main.starting = false) (hc : q.configureBootstrap u = .ok q') :
      StepEffect sdk w (.configure u) (w.setProc q')
  | poll (utxos : List UTXO) (q : Proc Hash) (hq : w.proc = some q) (hm : q.main = .waitForSeed)
      (hne : utxos ≠ []) : StepEffect sdk w (.poll utxos) (w.setProc { q with main := .pushSeed utxos })
  | main (ok : Bool) (q : Proc Hash) (w' : World Hash) (hq : w.proc = some q)
      (h : MainEffect w q ok w') : StepEffect sdk w (.main ok) w'
  | task (i : ℕ) (e : TaskEvent) (q : Proc Hash) (t t' : Task Hash) (w' : World Hash)
      (queue : List UTXO) (hq : w.proc = some q) (hi : q.tasks[i]? = some t)
      (h : TaskEffect sdk w q t e w' queue t') :
      StepEffect sdk w (.task i e) (w'.setProc { q with queue, tasks := q.tasks.set i t' })

/-- **Inversion of an event.** -/
theorem step_effect (sdk : SDK Hash) (w : World Hash) (e : Event Hash) :
    StepEffect sdk w e (w.step sdk e) := by
  unfold World.step
  split
  case h_1 o initial hw =>
    split_ifs with hs
    · exact .start o initial hw hs
    · exact .idle _
  case h_2 q hq => exact .crash q hq
  case h_3 q hq => exact .cancel q hq
  case h_4 u q hq =>
    split_ifs with hst
    · exact .idle _
    · split
      · exact .idle _
      · rename_i q' hc
        exact .configure u q q' hq (by simpa using hst) hc
  case h_5 utxos q hq =>
    split
    · rename_i hm
      split_ifs with hne
      · exact .idle _
      · exact .poll utxos q hq hm hne
    · exact .idle _
  case h_6 ok q hq => exact .main ok q _ hq (mainStep_effect w q ok)
  case h_7 i e q hq =>
    rcases taskStep_effect sdk w q i e with h | ⟨t, w', queue, t', hi, heff, h⟩
    · rw [h]
      exact .idle _
    · rw [h]
      exact .task i e q t t' w' queue hq hi heff
  case h_8 => exact .idle _

/-- An event within one lifetime. -/
def SameLife : Event Hash → Prop
  | .start _ _ | .crash => False
  | _ => True

instance : DecidablePred (@SameLife Hash)
  | .start _ _ | .crash => isFalse id
  | .cancel | .configure _ | .poll _ | .main _ | .task _ _ => isTrue trivial

/-- **The record of events only grows.** -/
theorem step_grows (w : World Hash) (e : Event Hash) : Grows w (w.step sdk e) := by
  have he := step_effect sdk w e
  generalize w.step sdk e = w' at he ⊢
  cases he with
  | idle => exact Grows.refl w
  | start | crash => exact ⟨fun _ h => h, fun _ h => h, fun _ h => h, fun _ h => h, fun _ h => h⟩
  | cancel | configure | poll => exact (Grows.refl w).setProc _
  | main ok q w' hq h => exact h.grows
  | task i te q t t' w' queue hq hi h => exact (Grows.taskEffect h).setProc _

end TxGen
