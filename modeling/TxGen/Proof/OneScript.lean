import TxGen.Proof.Import

/-!
# One lock script per state file

Processes with arbitrary modes start over one state file that begins empty. The hash of
the lock script is checked once, before the engine reads the file, while UTXOs enter it
later, from the UTXO source, from fanouts and hops, and from the replay of pending records.
All of them are locked by the one script whose hash the file records (`OneScript`), and a
start with another script's mode ends without a write (`file_of_one_script`).
-/

namespace TxGen

open Lib
open scoped List

variable {Hash : Type} {sdk : SDK Hash}

/-! ## What locks an output -/

/-- The scripts that lock the outputs on the network, by outpoint. The outputs of a
transaction are locked as it says. -/
structure Network (sdk : SDK Hash) where
  script : (Hash ⊕ Bytes) × ℕ → Option Bytes
  of_tx : ∀ (raw : RawTx Hash) (i : ℕ) (o : TxOutput), raw.outputs[i]? = some o →
    script (.inl (sdk.txHash raw), i) = some o.lockingScript

/-- The output `u` is locked by the script `L`. -/
def Network.Locks (N : Network sdk) (L : Bytes) (u : UTXO) : Prop :=
  N.script (sdk.outpoint u) = some L

/-- What a goroutine creates is locked by its mode's script. -/
theorem Network.locks_created (N : Network sdk) {t : Task Hash} {mode : Mode Hash}
    {p : PendingBroadcast Hash} (h : t.build sdk mode = .ok p) {u : UTXO} (hu : u ∈ p.created) :
    N.Locks mode.lockScript u := by
  obtain ⟨raw, hraw⟩ := Task.build_ok h
  have hcreated := hu
  rw [hraw.created] at hcreated
  obtain ⟨-, -, o, ho, -⟩ := mem_createdBy.1 hcreated
  unfold Network.Locks
  rw [hraw.created_outpoint hu, N.of_tx raw _ o ho,
    Task.build_scripts h hraw.ef o (List.mem_of_getElem? ho)]

/-! ## The invariant -/

/-- What the main goroutine is about to put in the file. -/
def Main.incoming : Main Hash → List UTXO
  | .persist rest | .pushSeed rest => rest
  | .replay rest _ _ | .replayStage _ rest _ _ => rest.flatMap PendingBroadcast.created
  | _ => []

/-- All that is in the file `L` locks, and all that the process is about to put there; the
process builds under a mode of `L`. -/
structure OneScript (N : Network sdk) (L : Bytes) (w : World Hash) : Prop where
  stored : ∀ u ∈ w.store.loadAll, N.Locks L u
  pending : ∀ p ∈ w.store.loadPending, ∀ u ∈ p.created, N.Locks L u
  mode : ∀ q, w.proc = some q → q.mode.lockScript = L
  incoming : ∀ q, w.proc = some q → ∀ u ∈ q.main.incoming, N.Locks L u
  records : ∀ q, w.proc = some q → ∀ t ∈ q.tasks, ∀ p, t.record = some p →
    ∀ u ∈ p.created, N.Locks L u

/-- A process of `L` is started with outputs of `L`, and the source answers with such. -/
def FromScript (N : Network sdk) (L : Bytes) : Event Hash → Prop
  | .start o initial => o.mode.lockScript = L ∧ ∀ u ∈ initial, N.Locks L u
  | .poll us => ∀ u ∈ us, N.Locks L u
  | _ => True

theorem configure_lockScript {q q' : Proc Hash} {u : BootstrapUpdate}
    (h : q.configureBootstrap u = .ok q') : q'.mode.lockScript = q.mode.lockScript := by
  unfold Proc.configureBootstrap at h
  split at h
  · cases h
  · split_ifs at h
    cases h
    show (Proc.updateMode q.mode u.sustainFee).lockScript = _
    unfold Proc.updateMode
    split
    · rfl
    · split_ifs <;> rfl

namespace OneScript

variable {N : Network sdk} {L : Bytes} {w w' : World Hash} {q q' : Proc Hash}

/-- The main goroutine is about to put nothing in the file but what it was before, or what
the pending records create. -/
theorem incoming_main (h : OneScript N L w) {ok : Bool} (he : MainEffect w q ok w')
    (hq : w.proc = some q) (hq' : w'.proc = some q') : ∀ u ∈ q'.main.incoming, N.Locks L u := by
  have hold := h.incoming q hq
  cases he with
  | wait =>
    rw [hq] at hq'
    cases hq'
    exact hold
  | newFails => cases hq'
  | persist u rest hm | pushSeed u rest hm =>
    cases hq'
    rw [hm] at hold
    exact fun x hx => hold x (List.mem_cons_of_mem _ hx)
  | persisted ok hm =>
    cases hq'
    intro u hu
    obtain ⟨p, hp, hu⟩ := List.mem_flatMap.1 hu
    exact h.pending p ((List.perm_insertionSort _ _).mem_iff.1 hp) u hu
  | replayUnknown ok p rest changed unknown hm =>
    cases hq'
    rw [hm] at hold
    exact fun x hx => hold x (List.mem_append_right _ hx)
  | replayCommit p rest changed unknown hm =>
    cases hq'
    rw [hm] at hold
    have hrest : ∀ u ∈ rest.flatMap PendingBroadcast.created, N.Locks L u :=
      fun x hx => hold x (List.mem_append_right _ hx)
    dsimp only
    cases p.stage <;> exact hrest
  | replayStage ok st rest changed unknown hm =>
    cases hq'
    rw [hm] at hold
    exact hold
  | lock ok st =>
    cases hq'
    dsimp only
    rcases dispatch_cases Hash st q.queue.length q.numChains q.l1Count with
      hd | hd | hd | hd | ⟨e, hd⟩ <;> rw [hd] <;> simp [Main.incoming]
  | startChain ok u rest hm =>
    cases hq'
    dsimp only
    rw [hm]
    simp [Main.incoming]
  | restored | restoredUnknown | waitForSeed | ready | seeded | beginL1 | endL1 | beginL2 | endL2
  | markDone | fail | failAt =>
    cases hq'
    simp [Main.incoming]

/-- A step of the main goroutine. -/
theorem mainEffect (h : OneScript N L w) {ok : Bool} (he : MainEffect w q ok w')
    (hq : w.proc = some q) : OneScript N L w' := by
  have hold := h.incoming q hq
  have hstored : (∀ u ∈ w'.store.loadAll, N.Locks L u) ∧
      ∀ p ∈ w'.store.loadPending, ∀ u ∈ p.created, N.Locks L u := by
    rcases he.history with hh | ⟨u, rest, q', hm, rfl⟩ | ⟨p, rest, c, n, q', hm, -, rfl⟩
    · rcases hh.store with hs | ⟨st, hs⟩ <;> rw [hs] <;> exact ⟨h.stored, h.pending⟩
    · refine ⟨fun x hx => ?_, h.pending⟩
      rcases Table.mem_insert.1 hx with rfl | ⟨-, hx⟩
      · rcases hm with hm | hm <;> rw [hm] at hold <;> exact hold x List.mem_cons_self
      · exact h.stored x hx
    · refine ⟨fun x hx => ?_, fun r hr => h.pending r ?_⟩
      · rcases Store.mem_commitPending hx with ⟨hx, -⟩ | hx
        · rw [hm] at hold
          exact hold x (List.mem_append_left _ hx)
        · exact h.stored x hx
      · exact Store.mem_pending_of_commit hr
  refine ⟨hstored.1, hstored.2, fun q' hq' => ?_, fun q' hq' => h.incoming_main he hq hq',
    fun q' hq' t ht p hrec => ?_⟩
  · rw [(he.params hq hq').mode]
    exact h.mode q hq
  · rcases he.tasks hq hq' t ht with ht | ⟨hpc, -⟩
    · exact h.records q hq t ht p hrec
    · rw [Task.record, hpc] at hrec
      cases hrec

/-- A step of a spending goroutine. -/
theorem taskEffect (h : OneScript N L w) (hq : w.proc = some q) {i : ℕ} {t t' : Task Hash}
    (hi : q.tasks[i]? = some t) {e : TaskEvent} {queue : List UTXO}
    (he : TaskEffect sdk w q t e w' queue t') :
    OneScript N L (w'.setProc { q with queue, tasks := q.tasks.set i t' }) := by
  have htm := List.mem_of_getElem? hi
  have hbuilt : ∀ p, t.build sdk q.mode = .ok p → ∀ u ∈ p.created, N.Locks L u := by
    intro p hb u hu
    rw [← h.mode q hq]
    exact N.locks_created hb hu
  have hstored : (∀ u ∈ w'.store.loadAll, N.Locks L u) ∧
      ∀ p ∈ w'.store.loadPending, ∀ u ∈ p.created, N.Locks L u := by
    rcases he.store_cases.2 with ⟨p, savedAt, hb, hs, -, -⟩ | ⟨hs | ⟨txid, hs⟩, -, -⟩ |
      ⟨p, hpc, rfl, -⟩
    · rw [hs]
      refine ⟨h.stored, fun r hr => ?_⟩
      rcases Store.mem_savePending.1 hr with rfl | ⟨-, hr⟩
      · exact hbuilt p hb
      · exact h.pending r hr
    · rw [hs]
      exact ⟨h.stored, h.pending⟩
    · rw [hs]
      exact ⟨h.stored, fun r hr => h.pending r (Store.mem_clearPending.1 hr).2⟩
    · refine ⟨fun x hx => ?_, fun r hr => h.pending r (Store.mem_pending_of_commit hr)⟩
      rcases Store.mem_commitPending hx with ⟨hx, -⟩ | hx
      · exact h.records q hq t htm p (by rw [Task.record, hpc]) x hx
      · exact h.stored x hx
  have hrecords : ∀ p, t'.record = some p → ∀ u ∈ p.created, N.Locks L u := by
    intro p hrec
    cases he with
    | save p' savedAt hpc hb =>
      cases hrec
      exact hbuilt p hb
    | broadcast p' o hpc =>
      have hold := h.records q hq t htm p' (by rw [Task.record, hpc])
      cases o <;> cases hrec <;> exact hold
    | commit p' hpc =>
      unfold Task.afterCommit at hrec
      repeat' split at hrec
      all_goals cases hrec
    | stop | giveUp | clear | clearLast | commitFail => cases hrec
  refine ⟨hstored.1, hstored.2, fun q' hq' => ?_, fun q' hq' => ?_, fun q' hq' => ?_⟩
  · cases hq'
    exact h.mode q hq
  · cases hq'
    exact h.incoming q hq
  · cases hq'
    exact forall_set (h.records q hq) hrecords

/-- **One event.** -/
theorem step (h : OneScript N L w) {e : Event Hash} (he : FromScript N L e) :
    OneScript N L (w.step sdk e) := by
  have heff := step_effect sdk w e
  generalize w.step sdk e = w' at heff ⊢
  cases heff with
  | idle => exact h
  | start o initial hw hs =>
    refine ⟨h.stored, h.pending, fun q hq => ?_, fun q hq => ?_, fun q hq t ht => ?_⟩
    · cases hq
      exact he.1
    · cases hq
      show ∀ u ∈ (if initial = [] then [] else
        Queue.restore (if initial = [] then w.store.loadAll else initial)), N.Locks L u
      intro u hu
      by_cases hi : initial = []
      · rw [if_pos hi] at hu
        cases hu
      · rw [if_neg hi, if_neg hi] at hu
        exact he.2 u ((Queue.restore_perm initial).mem_iff.1 hu)
    · cases hq
      cases ht
  | crash =>
    exact ⟨h.stored, h.pending, fun q hq => (by cases hq), fun q hq => (by cases hq),
      fun q hq => (by cases hq)⟩
  | cancel q hq =>
    refine ⟨h.stored, h.pending, fun q' hq' => ?_, fun q' hq' => ?_, fun q' hq' => ?_⟩ <;> cases hq'
    · exact h.mode q hq
    · exact h.incoming q hq
    · exact h.records q hq
  | configure u q q' hq hst hc =>
    have hmode := configure_lockScript hc
    obtain ⟨-, n, f, m, rfl⟩ := configure_ok hc
    refine ⟨h.stored, h.pending, fun q' hq' => ?_, fun q' hq' => ?_, fun q' hq' => ?_⟩ <;> cases hq'
    · exact hmode.trans (h.mode q hq)
    · exact h.incoming q hq
    · exact h.records q hq
  | poll us q hq hm =>
    refine ⟨h.stored, h.pending, fun q' hq' => ?_, fun q' hq' => ?_, fun q' hq' => ?_⟩ <;> cases hq'
    · exact h.mode q hq
    · exact he
    · exact h.records q hq
  | main ok q w₁ hq hm => exact h.mainEffect hm hq
  | task i te q t t' w₁ queue hq hi ht => exact h.taskEffect hq hi ht

theorem init (N : Network sdk) (L : Bytes) : OneScript N L (World.init Store.empty) where
  stored u hu := (by cases hu)
  pending p hp := (by cases hp)
  mode q hq := (by cases hq)
  incoming q hq := (by cases hq)
  records q hq := (by cases hq)

end OneScript

/-! ## Starts over one state file -/

namespace App

variable (scriptHash : Bytes → Bytes) (N : Network sdk) (a : App Hash)

/-- The output `u` is locked by the script whose hash the file records. -/
def LockedByHash (u : UTXO) : Prop := ∃ L, N.Locks L u ∧ scriptHash L = a.lockScriptHash

/-- The source answers with outputs of the script hash it is asked for. -/
def AnswersAsked : AppEvent Hash → Prop
  | .fetched (some us) => ∀ o, a.boot = some ⟨o, .fetch⟩ →
      ∀ u ∈ us, ∃ L, N.Locks L u ∧ scriptHash L = scriptHash o.mode.lockScript
  | .world (.poll us) => ∀ q, a.world.proc = some q →
      ∀ u ∈ us, ∃ L, N.Locks L u ∧ scriptHash L = scriptHash q.mode.lockScript
  | _ => True

/-- What holds in every state: a file without a hash is as it was created; one with a hash
is of the script with that hash, and the process about to start has outputs of it. -/
structure ScriptOK : Prop where
  boot : a.OK scriptHash
  unset : a.lockScriptHash = [] → a.world = World.init Store.empty
  set : a.lockScriptHash ≠ [] → ∃ L, scriptHash L = a.lockScriptHash ∧ OneScript N L a.world ∧
    ∀ o initial, a.boot = some ⟨o, .new initial⟩ → ∀ u ∈ initial, N.Locks L u

variable {scriptHash N a}

/-- A step of the world under a process, or none. -/
theorem ScriptOK.world (hinj : Function.Injective scriptHash) {L : Bytes} {e : Event Hash}
    (hL : OneScript N L a.world) (he : a.AnswersAsked scriptHash N (.world e))
    (hs : ∀ o initial, e ≠ .start o initial) : OneScript N L (a.world.step sdk e) := by
  cases hp : a.world.proc with
  | none =>
    rw [step_none hp hs]
    exact hL
  | some q =>
    refine hL.step ?_
    cases e with
    | start o initial => exact absurd rfl (hs o initial)
    | poll us =>
      intro u hu
      obtain ⟨L', hlock, hhash⟩ := he q hp u hu
      rw [hL.mode q hp] at hhash
      rw [← hinj hhash]
      exact hlock
    | _ => trivial

/-- **One event.** -/
theorem ScriptOK.step (hinj : Function.Injective scriptHash) (hne : ∀ L, scriptHash L ≠ [])
    (h : a.ScriptOK scriptHash N) {e : AppEvent Hash} (he : a.AnswersAsked scriptHash N e) :
    (a.step sdk scriptHash e).ScriptOK scriptHash N := by
  refine ⟨h.boot.step e, ?_, ?_⟩
  · have heff := app_effect sdk scriptHash a e
    generalize a.step sdk scriptHash e = a' at heff ⊢
    intro hnil
    cases heff with
    | idle | start | fail | unset | same | writeMode | fetched => exact h.unset hnil
    | writeHash o => exact absurd hnil (hne _)
    | new o ok initial hb => exact absurd ((h.boot _ hb).pc.1.symm.trans hnil) (hne _)
    | crash =>
      show a.world.step sdk .crash = _
      rw [h.unset hnil]
      exact step_none rfl (by simp)
    | world e hs =>
      show a.world.step sdk e = _
      rw [h.unset hnil]
      exact step_none rfl hs
  · have heff := app_effect sdk scriptHash a e
    generalize a.step sdk scriptHash e = a' at heff ⊢
    intro hset
    cases heff with
    | idle => exact h.set hset
    | start | fail | unset | same =>
      obtain ⟨L, hhash, hL, -⟩ := h.set hset
      exact ⟨L, hhash, hL, fun o' initial hb' => (by cases hb')⟩
    | writeHash o hb =>
      refine ⟨o.mode.lockScript, rfl, ?_, fun o' initial hb' => (by cases hb')⟩
      show OneScript N o.mode.lockScript a.world
      -- no engine has run on a file without a hash, so the world is the initial one
      rw [h.unset (h.boot _ hb).pc.1]
      exact OneScript.init N _
    | writeMode o utxos hb =>
      obtain ⟨L, hhash, hL, -⟩ := h.set hset
      refine ⟨L, hhash, hL, fun o' initial hb' u hu => hL.stored u ?_⟩
      by_cases hnil : utxos = []
      · simp [App.goto, hnil] at hb'
      · simp only [App.goto, if_neg hnil, Option.some.injEq, Boot.mk.injEq, BootPc.new.injEq] at hb'
        rw [← hb'.2, (h.boot _ hb).pc.2] at hu
        exact hu
    | fetched o utxos hb =>
      obtain ⟨L, hhash, hL, -⟩ := h.set hset
      refine ⟨L, hhash, hL, fun o' initial hb' u hu => ?_⟩
      simp only [App.goto, Option.some.injEq, Boot.mk.injEq, BootPc.new.injEq] at hb'
      -- the source was asked for the hash that the file records
      obtain ⟨L', hlock, hhash'⟩ := he o hb u (by rw [hb'.2]; exact hu)
      have hsame : scriptHash L' = scriptHash L :=
        hhash'.trans ((h.boot _ hb).pc.1.symm.trans hhash.symm)
      rw [← hinj hsame]
      exact hlock
    | new o ok initial hb =>
      obtain ⟨L, hhash, hL, hnew⟩ := h.set hset
      have hmode : o.mode.lockScript = L := hinj ((h.boot _ hb).pc.1.symm.trans hhash.symm)
      exact ⟨L, hhash, hL.step ⟨hmode, hnew o initial hb⟩, fun o' initial' hb' => (by cases hb')⟩
    | crash =>
      obtain ⟨L, hhash, hL, -⟩ := h.set hset
      exact ⟨L, hhash, hL.step trivial, fun o' initial' hb' => (by cases hb')⟩
    | world e hs =>
      obtain ⟨L, hhash, hL, hnew⟩ := h.set hset
      exact ⟨L, hhash, ScriptOK.world hinj hL he hs, hnew⟩

theorem ScriptOK.init : (App.init : App Hash).ScriptOK scriptHash N :=
  ⟨App.OK.init, fun _ => rfl, fun hset => absurd rfl hset⟩

/-- A recorded hash is never written again. -/
theorem lockScriptHash_step (h : a.OK scriptHash) (hset : a.lockScriptHash ≠ [])
    (e : AppEvent Hash) : (a.step sdk scriptHash e).lockScriptHash = a.lockScriptHash := by
  have heff := app_effect sdk scriptHash a e
  generalize a.step sdk scriptHash e = a' at heff ⊢
  cases heff with
  | writeHash o hb => exact absurd (h _ hb).pc.1 hset
  | idle | start | fail | unset | same | writeMode | fetched | new | crash | world => rfl

theorem lockScriptHash_steps (h : a.OK scriptHash) (hset : a.lockScriptHash ≠ [])
    (es : List (AppEvent Hash)) : (a.steps sdk scriptHash es).lockScriptHash = a.lockScriptHash := by
  have hany : Along (App.step sdk scriptHash) (fun _ _ => True) a es :=
    Along.of_forall fun _ _ _ => trivial
  have hrun := hany.inv
    (I := fun a' : App Hash => a'.OK scriptHash ∧ a'.lockScriptHash = a.lockScriptHash)
    (fun a' e h' _ => ⟨h'.1.step e, (lockScriptHash_step h'.1 (by rw [h'.2]; exact hset) e).trans h'.2⟩)
    ⟨h, rfl⟩
  exact hrun.2

end App

/-- **A state file is of one lock script.** Over a file that begins empty, processes with
arbitrary modes start, run and crash, and the UTXO source answers with outputs of the
script hash it is asked for.

* Every stored UTXO and every output that a pending record creates is locked by the script
  whose hash the file records.
* A recorded hash never changes.
* A start with a mode of another hash returns `ErrStateMismatch` and writes nothing. -/
theorem file_of_one_script (sdk : SDK Hash) {scriptHash : Bytes → Bytes}
    (hinj : Function.Injective scriptHash) (hne : ∀ L, scriptHash L ≠ []) (N : Network sdk)
    {es : List (AppEvent Hash)}
    (hes : Along (App.step sdk scriptHash) (App.AnswersAsked scriptHash N) App.init es) :
    let a := App.init.steps sdk scriptHash es
    (∀ u ∈ a.world.store.loadAll, a.LockedByHash scriptHash N u) ∧
    (∀ p ∈ a.world.store.loadPending, ∀ u ∈ p.created, a.LockedByHash scriptHash N u) ∧
    (a.lockScriptHash ≠ [] → ∀ fs, (a.steps sdk scriptHash fs).lockScriptHash = a.lockScriptHash) ∧
    ∀ o, a.lockScriptHash ≠ [] → scriptHash o.mode.lockScript ≠ a.lockScriptHash →
      a.boot = none → a.world.proc = none → ∀ ok, a.steps sdk scriptHash [.start o, .boot ok] =
        { a with error := some (.stateMismatch a.lockScriptHash (scriptHash o.mode.lockScript)) } := by
  intro a
  have h : a.ScriptOK scriptHash N :=
    hes.inv (fun _ _ h he => h.step hinj hne he) App.ScriptOK.init
  have hempty : a.lockScriptHash = [] → a.world.store.loadAll = [] ∧ a.world.store.loadPending = [] := by
    intro hnil
    rw [h.unset hnil]
    exact ⟨rfl, rfl⟩
  refine ⟨fun u hu => ?_, fun p hp u hu => ?_, fun hset fs => App.lockScriptHash_steps h.boot hset fs,
    fun o hset hother hb hp ok => ?_⟩
  · by_cases hnil : a.lockScriptHash = []
    · rw [(hempty hnil).1] at hu
      cases hu
    · obtain ⟨L, hhash, hL, -⟩ := h.set hnil
      exact ⟨L, hL.stored u hu, hhash⟩
  · by_cases hnil : a.lockScriptHash = []
    · rw [(hempty hnil).2] at hp
      cases hp
    · obtain ⟨L, hhash, hL, -⟩ := h.set hnil
      exact ⟨L, hL.pending p hp u hu, hhash⟩
  · simp only [App.steps, run_cons, run_nil, App.step, hb, hp, App.bootStep, App.check]
    rw [if_pos ⟨hset, hother.symm⟩]
    rfl

/-! ### A network -/

open Classical in
/-- When txids do not collide there is a network: the outputs of transactions are locked
as these say, any others by `L`. -/
noncomputable def Network.ofInjective (hinj : Function.Injective sdk.txHash) (L : Bytes) :
    Network sdk where
  script x :=
    match x.1 with
    | .inl h =>
      if hex : ∃ raw, sdk.txHash raw = h then (hex.choose.outputs[x.2]?).map TxOutput.lockingScript
      else some L
    | .inr _ => some L
  of_tx raw i o ho := by
    have hex : ∃ raw', sdk.txHash raw' = sdk.txHash raw := ⟨raw, rfl⟩
    have hraw : hex.choose = raw := hinj hex.choose_spec
    simp only
    rw [dif_pos hex, hraw, ho]
    rfl

/-- The event is not an answer of the source. -/
def AppEvent.silent : AppEvent Hash → Bool
  | .fetched _ | .world (.poll _) => false
  | _ => true

theorem App.answersAsked_of_silent {scriptHash : Bytes → Bytes} {N : Network sdk}
    {es : List (AppEvent Hash)} (h : es.all AppEvent.silent = true) (a : App Hash) :
    Along (App.step sdk scriptHash) (App.AnswersAsked scriptHash N) a es := by
  refine Along.of_forall fun e he a => ?_
  have hs := List.all_eq_true.1 h e he
  cases e with
  | fetched => cases hs
  | world e =>
    cases e with
    | poll => cases hs
    | _ => trivial
  | _ => trivial

namespace Concrete

/-- A hash of scripts that does not collide. -/
def markedHash (L : Bytes) : Bytes := 1 :: L

/-- No transaction has the id of the funding output. -/
theorem encTx_ne_funding (raw : RawTx Bytes) : plainSDK.txHash raw ≠ [102] := by
  intro h
  have hlen := congrArg List.length h
  simp [plainSDK, encTx, encList] at hlen
  omega

/-- The network on which everything else is locked by the tag of `tagMode`. -/
noncomputable def tagNetwork : Network plainSDK :=
  Network.ofInjective encTx_injective (tagMode 20).lockScript

theorem tagNetwork_funding (vout value : ℕ) :
    tagNetwork.Locks (tagMode 20).lockScript (funding vout value) := by
  have hno : ¬ ∃ raw, plainSDK.txHash raw = [102] := fun ⟨raw, h⟩ => encTx_ne_funding raw h
  exact dif_neg hno

end Concrete

theorem bootstrapped_of_one_script :
    let a := App.init.steps Concrete.plainSDK Concrete.markedHash Concrete.bootstrapped
    a.lockScriptHash = Concrete.markedHash (Concrete.tagMode 20).lockScript ∧
      (∃ u ∈ a.world.store.loadAll, a.LockedByHash Concrete.markedHash Concrete.tagNetwork u) ∧
      ∀ fs, (a.steps Concrete.plainSDK Concrete.markedHash fs).lockScriptHash = a.lockScriptHash := by
  have hes : Along (App.step Concrete.plainSDK Concrete.markedHash)
      (App.AnswersAsked Concrete.markedHash Concrete.tagNetwork) App.init Concrete.bootstrapped := by
    refine Along.append.2 ⟨Along.append.2 ⟨App.answersAsked_of_silent rfl _, ?_,
      App.answersAsked_of_silent rfl _⟩, App.answersAsked_of_silent rfl _⟩
    intro o ho u hu
    cases ho
    rw [List.mem_singleton.1 hu]
    exact ⟨_, Concrete.tagNetwork_funding 0 30, rfl⟩
  obtain ⟨hstored, -, hhash, -⟩ := file_of_one_script Concrete.plainSDK
    (fun _ _ h => List.tail_eq_of_cons_eq h) (fun _ => List.cons_ne_nil _ _) Concrete.tagNetwork hes
  have hset : (App.init.steps Concrete.plainSDK Concrete.markedHash
      Concrete.bootstrapped).lockScriptHash ≠ [] := by
    decide +kernel
  have hne : (App.init.steps Concrete.plainSDK Concrete.markedHash
      Concrete.bootstrapped).world.store.loadAll ≠ [] := by
    decide +kernel
  obtain ⟨u, hu⟩ := List.exists_mem_of_ne_nil _ hne
  exact ⟨by decide +kernel, ⟨u, hu, hstored u hu⟩, hhash hset⟩

end TxGen
