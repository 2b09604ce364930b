import TxGen.Proof.Concrete
import TxGen.Spec.Restore

/-!
# Pending records that cannot be replayed

A record without spent and created outputs cannot be replayed. `New` counts such
records, sets the stage to `unknown`, in memory and in the file, and then reads the
stage back from the file. When the write of `unknown` fails, what is read back is
the stage the file had before, and the engine goes on from there; and a record that
names the txid an unreplayable one is stored under removes it from the file when it
is replayed. `unreplayable_fails_closed_iff` says that nothing else goes wrong.

`restored_world` relates `RawStore.restore` to the steps of the world.
-/

namespace TxGen

open Lib

variable {Hash : Type}

/-! ## Texts of stages -/

theorem Stage.text_injective : Function.Injective Stage.text := by
  intro a b h
  cases a <;> cases b <;> first | rfl | exact absurd h (by decide)

theorem Stage.text_ne_nil (stage : Stage) : stage.text ≠ [] := by
  cases stage <;> decide

/-! ## The replay of the pending records -/

/-- The replay of `x` removes the record stored under `key`. -/
def Replay.removes (x : Replay) (key : Bytes) : Prop :=
  x.record.unreplayable = false ∧ x.record.txID = key ∧ key ≠ []

/-- The stage in the file after the replay of `x`, from `stage`. -/
def Replay.stageFrom (x : Replay) (stage : Bytes) : Bytes :=
  if x.record.unreplayable = true ∨ x.record.stage = [] ∨ x.stageOk = false then stage
  else x.record.stage

/-- The stage in the file after the replay of `xs`, from `stage`. -/
def lastStage (stage : Bytes) (xs : List Replay) : Bytes :=
  xs.foldl (fun stage x => x.stageFrom stage) stage

/-- What the replay of `xs` does to the count of unreplayable records, to the stage in
the file and to the pending bucket. -/
structure Replayed (r : Restoring) (xs : List Replay) (r' : Restoring) : Prop where
  unknown : r'.unknown = r.unknown + xs.countP fun x => x.record.unreplayable
  stage : r'.store.stage = lastStage r.store.stage xs
  pending : ∀ kv, kv ∈ r'.store.pending.entries ↔
    kv ∈ r.store.pending.entries ∧ ∀ x ∈ xs, ¬x.removes kv.1

theorem RawStore.mem_pending_commitPending {s : RawStore} {txid : Bytes} {spent created : List UTXO}
    {kv : Bytes × Bytes} : kv ∈ (s.commitPending txid spent created).pending.entries ↔
      kv ∈ s.pending.entries ∧ ¬(txid = kv.1 ∧ kv.1 ≠ []) := by
  obtain ⟨key, value⟩ := kv
  simp only [RawStore.commitPending]
  split_ifs with h
  · constructor
    · intro hm
      refine ⟨hm, ?_⟩
      rintro ⟨rfl, hne⟩
      exact hne h
    · exact fun hm => hm.1
  · rw [Bucket.mem_delete]
    constructor
    · rintro ⟨hne, hm⟩
      exact ⟨hm, fun hk => hne hk.1.symm⟩
    · rintro ⟨hm, hk⟩
      refine ⟨?_, hm⟩
      rintro rfl
      exact hk ⟨rfl, h⟩

theorem Restoring.replay_replayed {r r' : Restoring} {x : Replay} (h : r.replay x = some r') :
    Replayed r [x] r' := by
  unfold Restoring.replay at h
  cases hu : x.record.unreplayable with
  | true =>
    rw [hu, if_pos rfl] at h
    cases h
    refine ⟨by simp [hu], by simp [lastStage, Replay.stageFrom, hu], fun kv => ?_⟩
    simp [Replay.removes, hu]
  | false =>
    rw [hu, if_neg Bool.false_ne_true] at h
    split_ifs at h with hc hst
    · cases h
      refine ⟨by simp [hu], by simp [lastStage, Replay.stageFrom, hst, RawStore.commitPending], ?_⟩
      intro kv
      simp [Replay.removes, hu, RawStore.mem_pending_commitPending]
    · cases h
      refine ⟨by simp [hu, Restoring.setBootstrapStage], ?_, fun kv => ?_⟩
      · cases hok : x.stageOk <;>
          simp [lastStage, Replay.stageFrom, Restoring.setBootstrapStage, hu, hst, hok,
            RawStore.commitPending]
      · have hp : kv ∈ (if x.stageOk = true then
            { r.store.commitPending x.record.txID x.record.spent x.record.created with
              stage := x.record.stage }
            else r.store.commitPending x.record.txID x.record.spent
              x.record.created).pending.entries ↔
            kv ∈ (r.store.commitPending x.record.txID x.record.spent
              x.record.created).pending.entries := by
          split_ifs <;> rfl
        simp only [Restoring.setBootstrapStage, hp, RawStore.mem_pending_commitPending, Replay.removes, hu,
          List.mem_singleton, forall_eq, true_and]

theorem Restoring.replayAll_replayed {r r' : Restoring} {xs : List Replay}
    (h : r.replayAll xs = some r') : Replayed r xs r' := by
  induction xs generalizing r with
  | nil =>
    cases h
    exact ⟨by simp, rfl, by simp⟩
  | cons x xs ih =>
    obtain ⟨r₁, h₁, h₂⟩ := Option.bind_eq_some_iff.1 h
    have hx := Restoring.replay_replayed h₁
    have hxs := ih h₂
    refine ⟨?_, ?_, fun kv => ?_⟩
    · rw [hxs.unknown, hx.unknown, List.countP_cons, List.countP_cons, List.countP_nil]
      omega
    · rw [hxs.stage, hx.stage]
      rfl
    · rw [hxs.pending, hx.pending, List.forall_mem_singleton, List.forall_mem_cons, and_assoc]

theorem RawStore.foldl_saveUTXO (s : RawStore) (us : List UTXO) :
    (us.foldl saveUTXO s).pending = s.pending ∧ (us.foldl saveUTXO s).stage = s.stage := by
  induction us generalizing s with
  | nil => exact ⟨rfl, rfl⟩
  | cons u us ih => exact ih (s.saveUTXO u)

theorem RawStore.persistAll_eq_some {s s' : RawStore} {us : List UTXO} {ok : Bool}
    (h : s.persistAll us ok = some s') : s' = us.foldl saveUTXO s := by
  unfold RawStore.persistAll at h
  split_ifs at h
  exact (Option.some.inj h).symm

/-! ## The engine that `New` returns -/

/-- `New` returned `e` after replaying `xs` up to `r`. -/
theorem RawStore.restore_eq_some {s : RawStore} {initial : List UTXO} {persistOk unknownOk : Bool}
    {xs : List Replay} {e : RawEngine} (h : s.restore initial persistOk xs unknownOk = some e) :
    ∃ (r : Restoring) (queue : List UTXO), e = r.finish queue unknownOk ∧
      r.unknown = xs.countP (fun x => x.record.unreplayable) ∧
      r.store.stage = lastStage s.stage xs ∧
      ∀ kv, kv ∈ r.store.pending.entries ↔
        kv ∈ s.pending.entries ∧ ∀ x ∈ xs, ¬x.removes kv.1 := by
  obtain ⟨s', hs', h⟩ := Option.bind_eq_some_iff.1 h
  obtain ⟨r, hr, rfl⟩ := Option.map_eq_some_iff.1 h
  have hrep := Restoring.replayAll_replayed hr
  have hsave : s'.pending = s.pending ∧ s'.stage = s.stage := by
    rw [RawStore.persistAll_eq_some hs']
    exact s.foldl_saveUTXO _
  refine ⟨r, _, rfl, ?_, ?_, fun kv => ?_⟩
  · rw [hrep.unknown, Nat.zero_add]
  · rw [hrep.stage, hsave.2]
  · rw [hrep.pending, hsave.1]

/-- With unreplayable records the stage read back is `unknown` unless the write of it
failed and the file has another stage. -/
theorem Restoring.finish_stage_eq_unknown {r : Restoring} (hu : r.unknown ≠ 0)
    (queue : List UTXO) (unknownOk : Bool) :
    (r.finish queue unknownOk).stage = Stage.unknown.text ↔
      unknownOk = true ∨ r.store.stage = [] ∨ r.store.stage = Stage.unknown.text := by
  simp only [Restoring.finish, if_neg hu, Restoring.setBootstrapStage]
  cases unknownOk with
  | true => simp [Stage.text_ne_nil]
  | false =>
    by_cases hs : r.store.stage = []
    · simp [hs]
    · simp [hs]

theorem Restoring.finish_pending (r : Restoring) (queue : List UTXO) (unknownOk : Bool) :
    (r.finish queue unknownOk).store.pending = r.store.pending := by
  simp only [Restoring.finish, Restoring.setBootstrapStage]
  split_ifs <;> rfl

/-- The record at `key` stays in the file when no replayed record names it. -/
theorem not_removes_iff {decode : Bytes → Option RawPending} {s : RawStore} {xs : List Replay}
    (hxs : s.ReplayOrder decode xs) {key value : Bytes} (hkv : (key, value) ∈ s.pending.entries)
    (hun : (loadRecord decode key value).unreplayable = true) :
    (∀ x ∈ xs, ¬x.removes key) ↔
      ∀ p ∈ s.loadPending decode, p.unreplayable = false → p.txID ≠ key := by
  have hmem : ∀ p, p ∈ s.loadPending decode ↔ ∃ x ∈ xs, x.record = p := fun p => by
    rw [← hxs.1.mem_iff, List.mem_map]
  constructor
  · intro h p hp hrep hid
    -- a record with an empty txid would be stored under the empty key, so it is this one
    have hne : key ≠ [] := by
      rintro rfl
      obtain ⟨⟨k, v⟩, hkv', rfl⟩ := List.mem_map.1 hp
      have hk : k = [] := by
        by_contra hk
        simp only [loadRecord] at hid
        split_ifs at hid with h0
        · exact hk hid
        · exact h0 hid
      subst hk
      rw [Bucket.eq_of_mem_of_mem hkv' hkv, hun] at hrep
      cases hrep
    obtain ⟨x, hx, rfl⟩ := (hmem p).1 hp
    exact h x hx ⟨hrep, hid, hne⟩
  · intro h x hx hr
    exact h x.record ((hmem _).2 ⟨x, hx, rfl⟩) hr.1 hr.2.1

/-! ## `Run` at the stage `unknown` -/

/-- A step of the main goroutine. -/
def Event.isMain : Event Hash → Bool
  | .main _ => true
  | _ => false

/-- The process is `n` steps of its main goroutine away from returning
`ErrManualRecovery`. -/
structure Closing (q : Proc Hash) (n : ℕ) : Prop where
  stage : q.stage = .unknown
  tasks : q.tasks = []
  main : (n = 2 ∧ q.main = .ready) ∨ (n = 1 ∧ q.main = .lock .unknown) ∨
    (n = 0 ∧ q.main = .failed .manualRecovery)

variable (sdk : SDK Hash)

theorem Closing.configure {q : Proc Hash} {n : ℕ} (h : Closing q n) (u : BootstrapUpdate) :
    ∃ e, q.configureBootstrap u = .error e := by
  unfold Proc.configureBootstrap
  have hf : q.funded = true := by simp [Proc.funded, h.stage]
  cases Proc.checkUpdate u with
  | some e => exact ⟨e, rfl⟩
  | none => exact ⟨.bootstrapLocked, by simp [hf]⟩

theorem Closing.mainStep {w : World Hash} {q : Proc Hash} {n : ℕ} (h : Closing q n)
    (hq : w.proc = some q) (ok : Bool) :
    ∃ q', w.mainStep q ok = w.setProc q' ∧ Closing q' (n - 1) := by
  have hst := h.stage
  rcases h.main with ⟨rfl, hm⟩ | ⟨rfl, hm⟩ | ⟨rfl, hm⟩
  · refine ⟨{ q with main := .lock .unknown }, ?_, ⟨hst, h.tasks, Or.inr (Or.inl ⟨rfl, rfl⟩)⟩⟩
    simp [World.mainStep, hm, hst]
  · refine ⟨{ q with bootstrapLocked := true, main := .failed .manualRecovery }, ?_,
      ⟨hst, h.tasks, Or.inr (Or.inr ⟨rfl, rfl⟩)⟩⟩
    simp [World.mainStep, hm, dispatch]
  · refine ⟨q, ?_, ⟨hst, h.tasks, Or.inr (Or.inr ⟨rfl, hm⟩)⟩⟩
    simp only [World.mainStep, hm, World.setProc, ← hq]

theorem Closing.step {w : World Hash} {q : Proc Hash} {n : ℕ} (h : Closing q n)
    (hq : w.proc = some q) {e : Event Hash} (he : e ≠ .crash) :
    ∃ q', w.step sdk e = w.setProc q' ∧ Closing q' (n - if e.isMain then 1 else 0) := by
  have hself : w = w.setProc q := by rw [World.setProc, ← hq]
  cases e with
  | start o initial => exact ⟨q, by simpa [World.step, hq] using hself, h⟩
  | crash => exact absurd rfl he
  | cancel => exact ⟨{ q with ctxDone := true }, by simp [World.step, hq], h.stage, h.tasks, h.main⟩
  | configure u =>
    obtain ⟨err, herr⟩ := h.configure u
    refine ⟨q, ?_, h⟩
    simp only [World.step, hq, herr]
    split_ifs <;> exact hself
  | poll utxos =>
    refine ⟨q, ?_, h⟩
    have hw : q.main ≠ .waitForSeed := by
      rcases h.main with ⟨-, hm⟩ | ⟨-, hm⟩ | ⟨-, hm⟩ <;> simp [hm]
    simpa only [World.step, hq] using hself
  | main ok =>
    obtain ⟨q', hstep, hq'⟩ := h.mainStep hq ok
    exact ⟨q', by simpa only [World.step, hq] using hstep, by simpa [Event.isMain] using hq'⟩
  | task i te =>
    refine ⟨q, ?_, h⟩
    simpa [World.step, hq, World.taskStep, h.tasks] using hself

/-- Whatever happens to a process at the stage `unknown`, it sends nothing and writes
nothing, and it returns `ErrManualRecovery` in its first two steps. -/
theorem Closing.run {w : World Hash} {q : Proc Hash} {n : ℕ} (h : Closing q n)
    (hq : w.proc = some q) {es : List (Event Hash)} (hes : Event.crash ∉ es) :
    ∃ q', w.run sdk es = w.setProc q' ∧ Closing q' (n - es.countP Event.isMain) := by
  induction es generalizing w q n with
  | nil => exact ⟨q, by simp [World.run, World.setProc, ← hq], h⟩
  | cons e es ih =>
    obtain ⟨q₁, hstep, h₁⟩ := h.step sdk hq (fun he => hes (he ▸ List.mem_cons_self))
    obtain ⟨q', hrun, hq'⟩ := ih (w := w.setProc q₁) h₁ rfl
      (fun hm => hes (List.mem_cons_of_mem _ hm))
    refine ⟨q', ?_, ?_⟩
    · rw [World.run, Lib.run_cons, hstep]
      exact hrun
    · rw [List.countP_cons]
      have hn : n - (es.countP Event.isMain + if e.isMain = true then 1 else 0) =
          (n - if e.isMain = true then 1 else 0) - es.countP Event.isMain := by omega
      rw [hn]
      exact hq'

/-- `Run` returns `ErrManualRecovery` in its first two steps, without a broadcast and
without a write to the file, whatever else happens to the process. -/
def World.FailsClosed (w : World Hash) : Prop :=
  ∀ es : List (Event Hash), Event.crash ∉ es →
    (w.run sdk es).sent = w.sent ∧ (w.run sdk es).store = w.store ∧
      (2 ≤ es.countP Event.isMain → ∃ q ∈ (w.run sdk es).proc, q.main = .failed .manualRecovery)

theorem failsClosed_of_unknown {w : World Hash} {q : Proc Hash} (hq : w.proc = some q)
    (hm : q.main = .ready) (hst : q.stage = .unknown) (ht : q.tasks = []) :
    w.FailsClosed sdk := by
  intro es hes
  have hc : Closing q 2 := ⟨hst, ht, Or.inl ⟨rfl, hm⟩⟩
  obtain ⟨q', hrun, hq'⟩ := hc.run sdk hq hes
  rw [hrun]
  refine ⟨rfl, rfl, fun h2 => ⟨q', rfl, ?_⟩⟩
  rcases hq'.main with ⟨hn, -⟩ | ⟨hn, -⟩ | ⟨-, hm'⟩
  · omega
  · omega
  · exact hm'

/-- **Unreplayable records fail closed** exactly when the stage `unknown` reaches the
file, or the file has no other stage, and no replayed record names the key of the
unreplayable one. -/
theorem unreplayable_fails_closed_iff (decode : Bytes → Option RawPending) (s : RawStore)
    (initial : List UTXO) (persistOk unknownOk : Bool) (xs : List Replay)
    (hxs : s.ReplayOrder decode xs) {e : RawEngine}
    (hnew : s.restore initial persistOk xs unknownOk = some e) {key value : Bytes}
    (hkv : (key, value) ∈ s.pending.entries)
    (hun : (loadRecord decode key value).unreplayable = true) :
    (e.stage = Stage.unknown.text ∧
      (∀ (w : World Hash) (q : Proc Hash), w.proc = some q → e.Returned q → w.FailsClosed sdk) ∧
      (key, value) ∈ e.store.pending.entries) ↔
    ((unknownOk = true ∨ lastStage s.stage xs = [] ∨ lastStage s.stage xs = Stage.unknown.text) ∧
      ∀ p ∈ s.loadPending decode, p.unreplayable = false → p.txID ≠ key) := by
  obtain ⟨r, queue, rfl, hcount, hstage, hpending⟩ := RawStore.restore_eq_some hnew
  -- the unreplayable record is among those that are counted
  have hu : r.unknown ≠ 0 := by
    have hp : loadRecord decode key value ∈ s.loadPending decode :=
      List.mem_map.2 ⟨(key, value), hkv, rfl⟩
    obtain ⟨x, hx, hxr⟩ := List.mem_map.1 (hxs.1.mem_iff.2 hp)
    have hpos : 0 < xs.countP fun x => x.record.unreplayable :=
      List.countP_pos_iff.2 ⟨x, hx, by rw [hxr, hun]⟩
    omega
  rw [Restoring.finish_stage_eq_unknown hu, hstage, Restoring.finish_pending, hpending,
    not_removes_iff hxs hkv hun]
  constructor
  · rintro ⟨hst, -, -, hrem⟩
    exact ⟨hst, hrem⟩
  · rintro ⟨hst, hrem⟩
    refine ⟨hst, ?_, hkv, hrem⟩
    intro w q hq hret
    have htext : q.stage.text = Stage.unknown.text := by
      rw [hret.stage, Restoring.finish_stage_eq_unknown hu, hstage]
      exact hst
    exact failsClosed_of_unknown sdk hq hret.main (Stage.text_injective htext) hret.tasks

namespace Concrete

/-- The bytes `[1]` are a sustain hop; nothing else decodes. -/
def decodeHop (value : Bytes) : Option RawPending :=
  if value = [1] then some ⟨[7], [], [funding 0 50], [funding 1 30], Stage.l2Done.text, 1⟩ else none

/-- A file with a hop and a record that does not decode. -/
def crashed : RawStore :=
  ⟨Table.empty.insert (funding 0 50), (Bucket.empty.put [7] [1]).put [9] [0], Stage.l1Done.text⟩

/-- The undecodable record comes first, since it has no time. -/
def crashedReplays : List Replay :=
  [⟨loadRecord decodeHop [9] [0], true, true⟩, ⟨loadRecord decodeHop [7] [1], true, true⟩]

/-- The undecodable record in a file whose chain is running. -/
def crashedWorld : World Bytes :=
  World.init ⟨Table.empty.insert (funding 0 50), Table.empty.insert ⟨[9], none, [], [], none, 0⟩,
    some .l2Done⟩

/-- The write of `unknown` fails; the chain is started and takes a hop. -/
def resumedChain : List (Event Bytes) :=
  .start (options 20 1 1) [] :: mains 2 ++ .main false :: mains 3 ++
    [.task 0 (.save true 1), .task 0 (.broadcast .accepted)]

end Concrete

open Concrete

theorem crashed_replayOrder : crashed.ReplayOrder decodeHop crashedReplays :=
  ⟨by decide +kernel, by decide +kernel⟩

/-- When the write of `unknown` fails, the engine comes back at the stage of the last
hop, and it broadcasts. -/
theorem unknown_lost_resumes :
    (crashed.ReplayOrder decodeHop crashedReplays ∧ ([9], [0]) ∈ crashed.pending.entries ∧
      (loadRecord decodeHop [9] [0]).unreplayable = true ∧
      (crashed.restore [] true crashedReplays false).map RawEngine.stage =
        some Stage.l2Done.text) ∧
    (crashedWorld.run plainSDK resumedChain).store.stage = some .l2Done ∧
      (crashedWorld.run plainSDK resumedChain).sent.length = 1 ∧
      [9] ∈ (crashedWorld.run plainSDK resumedChain).store.loadPending.map (·.txID) :=
  ⟨⟨crashed_replayOrder, by decide +kernel, by decide +kernel, by decide +kernel⟩,
    by decide +kernel, by decide +kernel, by decide +kernel⟩

theorem crashed_fails_closed :
    ∃ e, crashed.restore [] true crashedReplays true = some e ∧ e.stage = Stage.unknown.text ∧
      (∀ (w : World Bytes) (q : Proc Bytes),
        w.proc = some q → e.Returned q → w.FailsClosed plainSDK) ∧
      ([9], [0]) ∈ e.store.pending.entries := by
  have hsome : (crashed.restore [] true crashedReplays true).isSome = true := by decide +kernel
  obtain ⟨e, he⟩ := Option.isSome_iff_exists.1 hsome
  exact ⟨e, he, (unreplayable_fails_closed_iff plainSDK decodeHop crashed [] true true crashedReplays
    crashed_replayOrder he (by decide +kernel) (by decide +kernel)).2
      ⟨Or.inl rfl, by decide +kernel⟩⟩

/-! ## `New` in the world

The state file of the world holds every record under its own txid. Seen as bytes,
`RawStore.restore` and the world's steps of `New` leave the same file, stage and
queue. -/

/-- The text of a stage, empty when there is none. -/
def stageText : Option Stage → Bytes
  | none => []
  | some stage => stage.text

/-- The record `r` is `p` as the file holds it. -/
structure RawPending.Is (r : RawPending) (p : PendingBroadcast Hash) : Prop where
  txID : r.txID = p.txID
  spent : r.spent = p.spent
  created : r.created = p.created
  stage : r.stage = stageText p.stage
  savedAt : r.savedAt = p.savedAt

/-- The bytes of a state file, with the encoder `encode`. -/
def Store.raw (encode : PendingBroadcast Hash → Bytes) (s : Store Hash) : RawStore :=
  ⟨s.utxos, s.pending.bucket.mapValues encode, stageText s.stage⟩

theorem getD_text (stage : Stage) (x : Option Stage) :
    (x.getD stage).text = if stageText x = [] then stage.text else stageText x := by
  cases x with
  | none => rfl
  | some stage' => simp [stageText, Stage.text_ne_nil]

section

variable {encode : PendingBroadcast Hash → Bytes} {load : PendingBroadcast Hash → RawPending}

theorem Store.raw_commitPending (s : Store Hash) (txid : Bytes) (spent created : List UTXO) :
    (s.commitPending txid spent created).raw encode =
      (s.raw encode).commitPending txid spent created := by
  simp only [Store.raw, Store.commitPending, RawStore.commitPending]
  split_ifs
  · rfl
  · rw [Table.erase, Bucket.mapValues_delete]

theorem Store.raw_loadPending (decode : Bytes → Option RawPending) (s : Store Hash) :
    (s.raw encode).loadPending decode =
      s.loadPending.map fun p => loadRecord decode p.txID (encode p) := by
  simp only [RawStore.loadPending, Store.raw, Bucket.mapValues, Table.entries_eq, List.map_map]
  rfl

/-- A record to replay with the outcomes of its two writes. -/
abbrev Outcomes (Hash : Type) := PendingBroadcast Hash × Bool × Bool

/-- The steps of the main goroutine that replay one record. -/
def replaySteps (y : Outcomes Hash) : List (Event Hash) :=
  if (y.1.spent = [] ∧ y.1.created = []) ∨ y.1.stage = none then [.main y.2.1]
  else [.main y.2.1, .main y.2.2]

/-- The same record on the raw file. -/
def asReplay (load : PendingBroadcast Hash → RawPending) (y : Outcomes Hash) : Replay :=
  ⟨load y.1, y.2.1, y.2.2⟩

/-- The world stands where the replay on the raw file stands. -/
structure Follows (encode : PendingBroadcast Hash → Bytes) (w : World Hash) (q : Proc Hash)
    (rest : List (PendingBroadcast Hash)) (queue : List UTXO) (r : Restoring) : Prop where
  proc : w.proc = some q
  main : q.main = .replay rest r.changed r.unknown
  store : w.store.raw encode = r.store
  stage : q.stage.text = r.stage
  queue : q.queue = queue
  tasks : q.tasks = []

theorem Follows.replay {w : World Hash} {q : Proc Hash} {p : PendingBroadcast Hash} {c st : Bool}
    {rest : List (PendingBroadcast Hash)} {queue : List UTXO} {r r' : Restoring}
    (h : Follows encode w q (p :: rest) queue r) (hload : (load p).Is p)
    (hr : r.replay ⟨load p, c, st⟩ = some r') :
    ∃ q', Follows encode (w.run sdk (replaySteps (p, c, st))) q' rest queue r' := by
  have hu : (load p).unreplayable = true ↔ p.spent = [] ∧ p.created = [] := by
    simp [RawPending.unreplayable, hload.spent, hload.created]
  unfold Restoring.replay at hr
  by_cases hp : p.spent = [] ∧ p.created = []
  · rw [if_pos (hu.2 hp)] at hr
    cases hr
    refine ⟨{ q with main := .replay rest r.changed (r.unknown + 1) }, ?_⟩
    have hrun : w.run sdk (replaySteps (p, c, st)) =
        w.setProc { q with main := .replay rest r.changed (r.unknown + 1) } := by
      simp [replaySteps, hp, World.run, World.step, h.proc, World.mainStep, h.main]
    rw [hrun]
    exact ⟨rfl, rfl, h.store, h.stage, h.queue, h.tasks⟩
  rw [if_neg (mt hu.1 hp)] at hr
  dsimp only at hr
  rw [hload.txID, hload.spent, hload.created, ← h.store, ← Store.raw_commitPending] at hr
  cases c with
  | false => cases hr
  | true =>
    rw [if_pos rfl] at hr
    cases hst : p.stage with
    | none =>
      have hs : (load p).stage = [] := by rw [hload.stage, hst]; rfl
      rw [if_pos hs] at hr
      cases hr
      refine ⟨{ q with main := .replay rest true r.unknown }, ?_⟩
      have hrun : w.run sdk (replaySteps (p, true, st)) =
          { (w.commit p) with replayed := w.replayed ++ [p] }.setProc
            { q with main := .replay rest true r.unknown } := by
        simp [replaySteps, hp, hst, World.run, World.step, h.proc, World.mainStep, h.main]
      rw [hrun]
      exact ⟨rfl, rfl, rfl, h.stage, h.queue, h.tasks⟩
    | some stage =>
      have hs : (load p).stage = stage.text := by rw [hload.stage, hst]; rfl
      rw [hs, if_neg stage.text_ne_nil] at hr
      cases hr
      refine ⟨{ q with stage, main := .replay rest true r.unknown }, ?_⟩
      have hrun : w.run sdk (replaySteps (p, true, st)) =
          (({ (w.commit p) with replayed := w.replayed ++ [p] }.setProc
            { q with main := .replayStage stage rest true r.unknown }).writeStage st stage).setProc
            { q with stage, main := .replay rest true r.unknown } := by
        simp [replaySteps, hp, hst, World.run, World.step, h.proc, World.mainStep, h.main,
          World.setProc]
      rw [hrun]
      refine ⟨rfl, rfl, ?_, rfl, h.queue, h.tasks⟩
      cases st <;> rfl

theorem Follows.replayAll {w : World Hash} {q : Proc Hash} {ys : List (Outcomes Hash)}
    {queue : List UTXO} {r r' : Restoring}
    (h : Follows encode w q (ys.map Prod.fst) queue r) (hload : ∀ y ∈ ys, (load y.1).Is y.1)
    (hr : r.replayAll (ys.map (asReplay load)) = some r') :
    ∃ q', Follows encode (w.run sdk (ys.flatMap replaySteps)) q' [] queue r' := by
  induction ys generalizing w q r with
  | nil =>
    cases hr
    exact ⟨q, h⟩
  | cons y ys ih =>
    obtain ⟨r₁, h₁, h₂⟩ := Option.bind_eq_some_iff.1 hr
    obtain ⟨q₁, hq₁⟩ := h.replay sdk (hload y List.mem_cons_self) h₁
    obtain ⟨q', hq'⟩ := ih hq₁ (fun y hy => hload y (List.mem_cons_of_mem _ hy)) h₂
    refine ⟨q', ?_⟩
    rw [List.flatMap_cons, World.run, Lib.run_append]
    exact hq'

theorem Follows.finish {w : World Hash} {q : Proc Hash} {queue : List UTXO} {r : Restoring}
    (h : Follows encode w q [] queue r) (ok : Bool) :
    ∃ q', (w.step sdk (.main ok)).proc = some q' ∧ (r.finish queue ok).Returned q' ∧
      (w.step sdk (.main ok)).store.raw encode = (r.finish queue ok).store := by
  have hread : ∀ (st : Stage) (s : Store Hash), (s.stage.getD st).text =
      if (s.raw encode).stage = [] then st.text else (s.raw encode).stage :=
    fun st s => getD_text st s.stage
  have hmain : w.step sdk (.main ok) = w.mainStep q ok := by simp only [World.step, h.proc]
  rw [hmain, World.mainStep, h.main]
  simp only [Restoring.finish]
  by_cases hu : r.unknown = 0
  · rw [if_pos hu, if_pos hu]
    refine ⟨_, rfl, ⟨rfl, ?_, ?_, h.tasks⟩, h.store⟩
    · exact (hread q.stage w.store).trans (by rw [h.store, h.stage])
    · simp only [h.queue, ← h.store]
      rfl
  · rw [if_neg hu, if_neg hu]
    have hstore : (w.writeStage ok .unknown).store.raw encode =
        (r.setBootstrapStage ok Stage.unknown.text).store := by
      cases ok
      · exact h.store
      · simp only [Restoring.setBootstrapStage, ← h.store]
        rfl
    refine ⟨_, rfl, ⟨rfl, ?_, ?_, h.tasks⟩, hstore⟩
    · exact (hread .unknown (w.writeStage ok .unknown).store).trans (by rw [hstore]; rfl)
    · simp only [h.queue, ← hstore]
      rfl

/-- The steps of `New` that save the initial UTXOs. -/
theorem persist_run {us : List UTXO} {w : World Hash} {q : Proc Hash} (hq : w.proc = some q)
    (hm : q.main = .persist us) :
    ∃ w' : World Hash, w.run sdk (List.replicate us.length (.main true)) =
        w'.setProc { q with main := .persist [] } ∧
      w'.store.raw encode = us.foldl RawStore.saveUTXO (w.store.raw encode) ∧
      w'.store.pending = w.store.pending := by
  induction us generalizing w q with
  | nil =>
    refine ⟨w, ?_, rfl, rfl⟩
    simp only [List.length_nil, List.replicate_zero, World.run, Lib.run_nil, World.setProc, ← hm,
      ← hq]
  | cons u us ih =>
    have hstep : w.step sdk (.main true) =
        (w.importUTXO u).setProc { q with main := .persist us } := by
      simp [World.step, hq, World.mainStep, hm]
    obtain ⟨w', hrun, hstore, hpend⟩ :=
      ih (w := (w.importUTXO u).setProc { q with main := .persist us }) rfl rfl
    refine ⟨w', ?_, hstore, hpend⟩
    rw [List.length_cons, List.replicate_succ, World.run, Lib.run_cons, hstep]
    exact hrun

instance : Std.Total (@replayBefore Hash) := ⟨fun a b => by
  unfold replayBefore
  rcases lt_trichotomy a.savedAt b.savedAt with h | h | h
  · exact Or.inl (Or.inl h)
  · exact (le_total a.txID b.txID).imp (fun hle => Or.inr ⟨h, hle⟩) fun hle => Or.inr ⟨h.symm, hle⟩
  · exact Or.inr (Or.inl h)⟩

instance : IsTrans (PendingBroadcast Hash) replayBefore := ⟨fun a b c hab hbc => by
  rcases hab with h | ⟨h, hle⟩ <;> rcases hbc with h' | ⟨h', hle'⟩
  · exact Or.inl (h.trans h')
  · exact Or.inl (h' ▸ h)
  · exact Or.inl (h ▸ h')
  · exact Or.inr ⟨h.trans h', hle.trans hle'⟩⟩

/-- The records in the order of the world's replay are in the order of the raw file's. -/
theorem replayOrder_raw {decode : Bytes → Option RawPending} {s : Store Hash}
    {ys : List (Outcomes Hash)} (hys : ys.map Prod.fst = s.loadPending.insertionSort replayBefore)
    (hload : ∀ p ∈ s.loadPending, (loadRecord decode p.txID (encode p)).Is p) :
    (s.raw encode).ReplayOrder decode
      (ys.map (asReplay fun p => loadRecord decode p.txID (encode p))) := by
  have hperm : (ys.map Prod.fst).Perm s.loadPending := by
    rw [hys]
    exact List.perm_insertionSort _ _
  have hrec : (ys.map (asReplay fun p => loadRecord decode p.txID (encode p))).map Replay.record =
      (ys.map Prod.fst).map fun p => loadRecord decode p.txID (encode p) := by
    simp only [List.map_map]
    rfl
  refine ⟨?_, ?_⟩
  · rw [hrec, Store.raw_loadPending]
    exact hperm.map _
  · rw [hrec, List.pairwise_map]
    have hsorted : (ys.map Prod.fst).Pairwise replayBefore := by
      rw [hys]
      exact List.pairwise_insertionSort _ _
    refine hsorted.imp_of_mem fun {a b} ha hb hab => ?_
    have hla := hload a (hperm.mem_iff.1 ha)
    have hlb := hload b (hperm.mem_iff.1 hb)
    rw [RawPending.before, hla.savedAt, hlb.savedAt, hla.txID, hlb.txID]
    exact hab

/-- The steps of `New` after the initial UTXOs `us` are queued. -/
def newSteps (us : List UTXO) (ys : List (Outcomes Hash)) (unknownOk : Bool) : List (Event Hash) :=
  List.replicate us.length (.main true) ++ .main true :: ys.flatMap replaySteps ++
    [.main unknownOk]

theorem newSteps_follow {w : World Hash} {q : Proc Hash} {us : List UTXO}
    {ys : List (Outcomes Hash)} {unknownOk : Bool} {r : Restoring} (hq : w.proc = some q)
    (hm : q.main = .persist us) (hst : q.stage = .none) (ht : q.tasks = [])
    (hys : ys.map Prod.fst = w.store.loadPending.insertionSort replayBefore)
    (hload : ∀ y ∈ ys, (load y.1).Is y.1)
    (hr : Restoring.replayAll ⟨us.foldl RawStore.saveUTXO (w.store.raw encode), Stage.none.text,
      false, 0⟩ (ys.map (asReplay load)) = some r) :
    ∃ q', (w.run sdk (newSteps us ys unknownOk)).proc = some q' ∧
      (r.finish q.queue unknownOk).Returned q' ∧
      (w.run sdk (newSteps us ys unknownOk)).store.raw encode =
        (r.finish q.queue unknownOk).store := by
  obtain ⟨w₁, hrun₁, hstore₁, hpend₁⟩ := persist_run sdk hq hm
  -- the main goroutine reads the pending records, which the saved UTXOs left alone
  have hread : (w₁.setProc { q with main := .persist [] }).step sdk (.main true) =
      w₁.setProc { q with main := .replay (ys.map Prod.fst) false 0 } := by
    have hp : w₁.store.loadPending = w.store.loadPending := by
      rw [Store.loadPending, hpend₁, Store.loadPending]
    simp only [World.step, World.setProc, World.mainStep, hys, hp]
  have hf : Follows encode (w₁.setProc { q with main := .replay (ys.map Prod.fst) false 0 })
      { q with main := .replay (ys.map Prod.fst) false 0 } (ys.map Prod.fst) q.queue
      ⟨us.foldl RawStore.saveUTXO (w.store.raw encode), Stage.none.text, false, 0⟩ :=
    ⟨rfl, rfl, hstore₁, by rw [← hst], rfl, ht⟩
  obtain ⟨q₂, hq₂⟩ := hf.replayAll sdk hload hr
  have hrun : w.run sdk (newSteps us ys unknownOk) =
      ((w₁.setProc { q with main := .replay (ys.map Prod.fst) false 0 }).run sdk
        (ys.flatMap replaySteps)).step sdk (.main unknownOk) := by
    rw [newSteps, World.run, Lib.run_concat, Lib.run_append]
    rw [World.run] at hrun₁
    rw [hrun₁, Lib.run_cons, hread]
    rfl
  rw [hrun]
  exact hq₂.finish sdk unknownOk

/-- **`New` in the world is `New` on the bytes of its file**: it replays the records in an
order of the file's, and the steps of a process up to the return of `New` leave the file,
the stage and the queue of `RawStore.restore`. -/
theorem restored_world {decode : Bytes → Option RawPending} {w : World Hash} (hw : w.proc = none)
    (o : Options Hash) {initial : List UTXO} (hinit : w.startsWith initial = true)
    {ys : List (Outcomes Hash)}
    (hys : ys.map Prod.fst = w.store.loadPending.insertionSort replayBefore)
    (hload : ∀ p ∈ w.store.loadPending, (loadRecord decode p.txID (encode p)).Is p)
    {unknownOk : Bool} {e : RawEngine}
    (hnew : (w.store.raw encode).restore initial true
      (ys.map (asReplay fun p => loadRecord decode p.txID (encode p))) unknownOk = some e) :
    let w' := w.run sdk (.start o initial ::
      newSteps (if initial = [] then [] else Queue.restore initial) ys unknownOk)
    (w.store.raw encode).ReplayOrder decode
      (ys.map (asReplay fun p => loadRecord decode p.txID (encode p))) ∧
    ∃ q, w'.proc = some q ∧ e.Returned q ∧ w'.store.raw encode = e.store := by
  obtain ⟨s', hs', hnew⟩ := Option.bind_eq_some_iff.1 hnew
  obtain ⟨r, hr, rfl⟩ := Option.map_eq_some_iff.1 hnew
  rw [RawStore.persistAll_eq_some hs'] at hr
  have hstart : w.step sdk (.start o initial) =
      { w with proc := some (Proc.new o w.store.loadAll initial), life := w.life + 1 } := by
    simp only [World.step, hw, if_pos hinit]
  have hus : (if initial = [] then [] else
      Queue.restore (if initial = [] then w.store.loadAll else initial)) =
      if initial = [] then [] else Queue.restore initial := by
    split_ifs <;> rfl
  have hmain : (Proc.new o w.store.loadAll initial).main =
      .persist (if initial = [] then [] else Queue.restore initial) := by
    rw [← hus]
    rfl
  have hperm : (ys.map Prod.fst).Perm w.store.loadPending := by
    rw [hys]
    exact List.perm_insertionSort _ _
  have hload' : ∀ y ∈ ys, (loadRecord decode y.1.txID (encode y.1)).Is y.1 := fun y hy =>
    hload y.1 (hperm.mem_iff.1 (List.mem_map_of_mem hy))
  have hloadAll : (w.store.raw encode).loadAll = w.store.loadAll := rfl
  rw [hloadAll, hus] at hr
  refine ⟨replayOrder_raw hys hload, ?_⟩
  simp only [World.run, Lib.run_cons, hstart]
  exact newSteps_follow sdk rfl hmain rfl rfl hys hload' hr

end

end TxGen
