import TxGen.Proof.Lifecycle
import TxGen.Proof.Params

/-!
# Bootstrap parameters within a run

`ConfigureBootstrap` succeeds only before `bootstrap` fixes the parameters, and until
then nothing is built. From there on the process keeps them, so every fanout and every
sustain hop of its lifetime is built under the configuration that was read when they
were fixed (`bootstrap_config_frozen`).
-/

namespace TxGen

open Lib

variable {Hash : Type} {sdk : SDK Hash}

/-! ## What the parameters determine -/

/-- A fanout of `t` has the number of outputs that the parameters of `q` give it. -/
def Task.Sized (q : Proc Hash) (t : Task Hash) : Prop :=
  match t.kind with
  | .l1 => t.n = q.l1Count
  | .l2 => ∃ parents i : ℕ, i < parents ∧ t.n = l2FanoutSizeForParent q.numChains parents i
  | .sustain => True

/-- The transaction `p` is what a goroutine builds under the parameters of `q`. -/
def BuiltUnder (sdk : SDK Hash) (q : Proc Hash) (p : PendingBroadcast Hash) : Prop :=
  ∃ t : Task Hash, t.Sized q ∧ t.build sdk q.mode = .ok p

theorem Task.StartedBy.sized {q : Proc Hash} {t : Task Hash} (h : t.StartedBy q) : t.Sized q := by
  unfold Task.StartedBy at h
  unfold Task.Sized
  cases hk : t.kind <;> rw [hk] at h
  · exact h.2
  · exact h.2
  · trivial

namespace SameParams

variable {q q' : Proc Hash}

theorem sized (h : SameParams q q') {t : Task Hash} (ht : t.Sized q) : t.Sized q' := by
  have hl1 : q'.l1Count = q.l1Count := by
    unfold Proc.l1Count
    rw [h.numChains, h.fanoutSize]
  unfold Task.Sized at ht ⊢
  rw [hl1, h.numChains]
  exact ht

theorem builtUnder (h : SameParams q q') {p : PendingBroadcast Hash} (hp : BuiltUnder sdk q p) :
    BuiltUnder sdk q' p := by
  obtain ⟨t, ht, hb⟩ := hp
  exact ⟨t, h.sized ht, by rw [h.mode]; exact hb⟩

theorem symm_of_locked (h : SameParams q q') (hl : q.bootstrapLocked = true) : SameParams q' q :=
  ⟨h.numChains.symm, h.fanoutSize.symm, h.mode.symm, fun _ => hl⟩

theorem refl (q : Proc Hash) : SameParams q q := ⟨rfl, rfl, rfl, id⟩

theorem trans {q'' : Proc Hash} (h : SameParams q q') (h' : SameParams q' q'') : SameParams q q'' :=
  ⟨h'.numChains.trans h.numChains, h'.fanoutSize.trans h.fanoutSize, h'.mode.trans h.mode,
    fun hl => h'.locked (h.locked hl)⟩

end SameParams

/-- An event keeps the parameters, unless it is a call of `ConfigureBootstrap` that
succeeds. -/
theorem step_params {w : World Hash} {q q' : Proc Hash} {e : Event Hash} (hq : w.proc = some q)
    (h : (w.step sdk e).proc = some q') :
    SameParams q q' ∨ ∃ u, e = .configure u ∧ q.configureBootstrap u = .ok q' := by
  have he := step_effect sdk w e
  generalize w.step sdk e = w' at h he
  have hsame : ∀ {q₀ : Proc Hash}, w.proc = some q₀ → q₀ = q := by
    intro q₀ h₀
    rw [hq] at h₀
    exact (Option.some.inj h₀).symm
  cases he with
  | idle =>
    rw [hsame h]
    exact Or.inl (.refl q)
  | start o initial hw =>
    rw [hq] at hw
    cases hw
  | crash => cases h
  | cancel q₀ hq₀ | poll us q₀ hq₀ | task i e q₀ t t' w₁ queue hq₀ =>
    cases h
    rw [hsame hq₀]
    exact Or.inl ⟨rfl, rfl, rfl, id⟩
  | configure u q₀ q₁ hq₀ hst hc =>
    cases h
    rw [hsame hq₀] at hc
    exact Or.inr ⟨u, rfl, hc⟩
  | main ok q₀ w₁ hq₀ hm =>
    rw [← hsame hq₀]
    exact Or.inl (hm.params hq₀ h)

/-! ## Before and after the parameters are fixed -/

/-- The main goroutine has not fixed the parameters yet. -/
def Main.unlocked : Main Hash → Bool
  | .persist _ | .replay .. | .replayStage .. | .ready | .waitForSeed | .pushSeed _ | .lock _ => true
  | _ => false

/-- What holds of a process in the world `w`.

* The parameters are fixed from the step after `lock` on, whether or not it fails.
* Until then no goroutine is started and nothing is sent.
* What is built is built under the parameters the process has. -/
structure Locked (sdk : SDK Hash) (w : World Hash) (q : Proc Hash) : Prop where
  before : q.main.unlocked = true → q.bootstrapLocked = false
  after : q.main.unlocked = false → q.bootstrapLocked = true ∨ q.main.isFailed = true
  failed : q.main.isFailed = true → q.tasks = []
  idle : q.bootstrapLocked = false → q.tasks = [] ∧ ∀ x ∈ w.sent, x.1 ≠ w.life
  sized : ∀ t ∈ q.tasks, t.Sized q
  records : ∀ t ∈ q.tasks, ∀ p, t.record = some p → t.build sdk q.mode = .ok p
  sent : ∀ x ∈ w.sent, x.1 = w.life → BuiltUnder sdk q x.2

/-- So of the running process, and nothing is sent in a lifetime to come. -/
structure LockedAt (sdk : SDK Hash) (w : World Hash) : Prop where
  lives : ∀ x ∈ w.sent, x.1 ≤ w.life
  proc : ∀ q, w.proc = some q → Locked sdk w q

/-- The main goroutine sends nothing. -/
theorem MainEffect.sent_eq {w w' : World Hash} {q : Proc Hash} {ok : Bool}
    (h : MainEffect w q ok w') : w'.sent = w.sent ∧ w'.life = w.life := by
  rcases h.history with h | ⟨u, -, q', -, rfl⟩ | ⟨p, -, -, -, q', -, -, rfl⟩
  · exact ⟨h.sent, h.life⟩
  · exact ⟨rfl, rfl⟩
  · exact ⟨rfl, rfl⟩

section Steps

variable {w w' : World Hash} {q q' : Proc Hash} {ok : Bool}

/-- The parameters are fixed where the main goroutine says so. -/
theorem Locked.main_points (h : Locked sdk w q) (he : MainEffect w q ok w') (hq : w.proc = some q)
    (hq' : w'.proc = some q') :
    (q'.main.unlocked = true → q'.bootstrapLocked = false) ∧
      (q'.main.unlocked = false → q'.bootstrapLocked = true ∨ q'.main.isFailed = true) ∧
      (q'.main.isFailed = true → q'.tasks = []) := by
  -- a point before `lock` leads to one, and a point after it to one after it
  have hbefore : q.main.unlocked = true → q'.main.unlocked = true →
      q'.bootstrapLocked = q.bootstrapLocked →
      (q'.main.unlocked = true → q'.bootstrapLocked = false) ∧
        (q'.main.unlocked = false → q'.bootstrapLocked = true ∨ q'.main.isFailed = true) ∧
        (q'.main.isFailed = true → q'.tasks = []) := by
    intro hm hm' hl
    refine ⟨fun _ => hl.trans (h.before hm), fun hf => ?_, fun hf => ?_⟩
    · rw [hm'] at hf
      cases hf
    · cases hmain : q'.main <;> rw [hmain] at hm' hf <;> simp [Main.unlocked, Main.isFailed] at hm' hf
  have hafter : q.main.unlocked = false → q.main.isFailed = false → q'.main.unlocked = false →
      q'.main.isFailed = false → q'.bootstrapLocked = q.bootstrapLocked →
      (q'.main.unlocked = true → q'.bootstrapLocked = false) ∧
        (q'.main.unlocked = false → q'.bootstrapLocked = true ∨ q'.main.isFailed = true) ∧
        (q'.main.isFailed = true → q'.tasks = []) := by
    intro hm hnf hm' hnf' hl
    have hlocked : q.bootstrapLocked = true := (h.after hm).resolve_right (by rw [hnf]; simp)
    refine ⟨fun hu => ?_, fun _ => Or.inl (hl.trans hlocked), fun hf => ?_⟩
    · rw [hm'] at hu
      cases hu
    · rw [hnf'] at hf
      cases hf
  cases he with
  | wait =>
    rw [hq] at hq'
    cases hq'
    exact ⟨h.before, h.after, h.failed⟩
  | newFails => cases hq'
  | persist u rest hm | persisted ok hm | replayUnknown ok p rest c n hm | replayStage ok st rest c n hm
  | restored ok c hm | restoredUnknown ok c n hm | waitForSeed ok hm | ready ok hm
  | pushSeed u rest hm | seeded ok hm =>
    cases hq'
    exact hbefore (by rw [hm]; rfl) rfl rfl
  | replayCommit p rest c n hm =>
    cases hq'
    refine hbefore (by rw [hm]; rfl) ?_ rfl
    dsimp only
    cases p.stage <;> rfl
  | lock ok st hm =>
    cases hq'
    have hidle := (h.idle (h.before (by rw [hm]; rfl))).1
    refine ⟨fun hu => ?_, fun _ => Or.inl rfl, fun _ => hidle⟩
    dsimp only at hu
    rcases dispatch_cases Hash st q.queue.length q.numChains q.l1Count with
      hd | hd | hd | hd | ⟨e, hd⟩ <;> rw [hd] at hu <;> cases hu
  | beginL1 ok seed rest hm | endL1 ok t outputs hm | beginL2 ok hm | endL2 ok hm | markDone ok hm =>
    cases hq'
    exact hafter (by rw [hm]; rfl) (by rw [hm]; rfl) rfl rfl rfl
  | startChain ok u rest hm =>
    cases hq'
    exact hafter (by rw [hm]; rfl) (by rw [hm]; rfl) (by dsimp only; rw [hm]; rfl)
      (by dsimp only; rw [hm]; rfl) rfl
  | fail | failAt =>
    cases hq'
    exact ⟨fun hu => (by cases hu), fun _ => Or.inr rfl, fun _ => rfl⟩

/-- A goroutine is started after the parameters are fixed. -/
theorem Locked.of_startedBy (h : Locked sdk w q) {t : Task Hash} (ht : t.StartedBy q) :
    q.bootstrapLocked = true := by
  have hmain : q.main.unlocked = false ∧ q.main.isFailed = false := by
    unfold Task.StartedBy at ht
    split at ht
    · rw [ht.1]
      exact ⟨rfl, rfl⟩
    · rw [ht.1]
      exact ⟨rfl, rfl⟩
    · rw [ht]
      exact ⟨rfl, rfl⟩
  exact (h.after hmain.1).resolve_right (by rw [hmain.2]; simp)

theorem Locked.mainEffect (h : Locked sdk w q) (he : MainEffect w q ok w') (hq : w.proc = some q)
    (hq' : w'.proc = some q') : Locked sdk w' q' := by
  obtain ⟨hbefore, hafter, hfailed⟩ := h.main_points he hq hq'
  obtain ⟨hsent, hlife⟩ := he.sent_eq
  have hp := he.params hq hq'
  have htasks := he.tasks hq hq'
  refine ⟨hbefore, hafter, hfailed, fun hl => ?_, fun t ht => ?_, fun t ht p hrec => ?_, ?_⟩
  · have hl₀ : q.bootstrapLocked = false := by
      by_contra hc
      have := hp.locked (by simpa using hc)
      rw [hl] at this
      cases this
    obtain ⟨hnil, hnone⟩ := h.idle hl₀
    refine ⟨List.eq_nil_iff_forall_not_mem.2 fun t ht => ?_, by rw [hsent, hlife]; exact hnone⟩
    rcases htasks t ht with ht | ⟨-, -, hstart⟩
    · rw [hnil] at ht
      cases ht
    · rw [h.of_startedBy hstart] at hl₀
      cases hl₀
  · rcases htasks t ht with ht | ⟨-, -, hstart⟩
    · exact hp.sized (h.sized t ht)
    · exact hp.sized hstart.sized
  · rw [hp.mode]
    rcases htasks t ht with ht | ⟨hpc, -⟩
    · exact h.records t ht p hrec
    · rw [Task.record, hpc] at hrec
      cases hrec
  · rw [hsent, hlife]
    exact fun x hx hl => hp.builtUnder (h.sent x hx hl)

variable {t t' : Task Hash} {te : TaskEvent} {queue : List UTXO} {i : ℕ}

/-- What a goroutine goes on broadcasting is what it built. -/
theorem TaskEffect.records (he : TaskEffect sdk w q t te w' queue t')
    (h : ∀ p, t.record = some p → t.build sdk q.mode = .ok p) {p : PendingBroadcast Hash}
    (hp : t'.record = some p) : t'.build sdk q.mode = .ok p := by
  cases he with
  | save p' savedAt hpc hb =>
    cases hp
    exact hb
  | broadcast p' o hpc =>
    have hold := h p' (by rw [Task.record, hpc])
    cases o <;> cases hp <;> exact hold
  | commit p' hpc =>
    unfold Task.afterCommit at hp
    repeat' split at hp
    all_goals cases hp
  | stop | giveUp | clear | clearLast | commitFail => cases hp

/-- A goroutine sends only what it has built. -/
theorem TaskEffect.sent_cases (he : TaskEffect sdk w q t te w' queue t') :
    w'.life = w.life ∧ (w'.sent = w.sent ∨
      ∃ p, t.record = some p ∧ w'.sent = w.sent ++ [(w.life, p)]) := by
  cases he with
  | broadcast p o hpc => exact ⟨rfl, Or.inr ⟨p, by rw [Task.record, hpc], rfl⟩⟩
  | clear p ok | clearLast p ok => cases ok <;> exact ⟨rfl, Or.inl rfl⟩
  | save | stop | giveUp | commit | commitFail => exact ⟨rfl, Or.inl rfl⟩

theorem Task.Sized.move (h : t.Sized q) (hm : TaskMove t t') : t'.Sized q := by
  unfold Task.Sized at h ⊢
  rw [hm.kind, hm.n]
  exact h

theorem Locked.taskEffect (h : Locked sdk w q) (hi : q.tasks[i]? = some t)
    (he : TaskEffect sdk w q t te w' queue t') :
    Locked sdk w' { q with queue, tasks := q.tasks.set i t' } := by
  have htm := List.mem_of_getElem? hi
  have hne : q.tasks ≠ [] := List.ne_nil_of_mem htm
  have hlocked : q.bootstrapLocked = true := by
    by_contra hc
    exact hne (h.idle (by simpa using hc)).1
  obtain ⟨hlife, hsent⟩ := he.sent_cases
  have hp : SameParams q { q with queue, tasks := q.tasks.set i t' } := ⟨rfl, rfl, rfl, id⟩
  refine ⟨h.before, h.after, fun hf => absurd (h.failed hf) hne, fun hl => ?_, ?_, ?_, ?_⟩
  · have hl' : q.bootstrapLocked = false := hl
    rw [hlocked] at hl'
    cases hl'
  · exact forall_set (fun x hx => hp.sized (h.sized x hx)) (hp.sized ((h.sized t htm).move he.move))
  · exact forall_set h.records fun p hrec => he.records (h.records t htm) hrec
  · rw [hlife]
    intro x hx hl
    rcases hsent with hsent | ⟨p, hrec, hsent⟩
    · rw [hsent] at hx
      exact hp.builtUnder (h.sent x hx hl)
    · rw [hsent] at hx
      rcases List.mem_append.1 hx with hx | hx
      · exact hp.builtUnder (h.sent x hx hl)
      · rw [List.mem_singleton.1 hx]
        exact hp.builtUnder ⟨t, h.sized t htm, h.records t htm p hrec⟩

end Steps

/-- Only what is sent matters of the world. -/
theorem Locked.setProc {w : World Hash} {q : Proc Hash} (h : Locked sdk w q) (q' : Proc Hash) :
    Locked sdk (w.setProc q') q :=
  ⟨h.before, h.after, h.failed, h.idle, h.sized, h.records, h.sent⟩

/-- A change of the parameters comes before anything is built. -/
theorem Locked.configure {w : World Hash} {q q' : Proc Hash} (h : Locked sdk w q)
    {u : BootstrapUpdate} (hc : q.configureBootstrap u = .ok q') : Locked sdk w q' := by
  obtain ⟨hfunded, n, f, m, rfl⟩ := configure_ok hc
  have hl : q.bootstrapLocked = false := by
    by_contra hl
    have hl' : q.bootstrapLocked = true := by simpa using hl
    simp [Proc.funded, hl'] at hfunded
  obtain ⟨hnil, hnone⟩ := h.idle hl
  have hno : ∀ t, t ∉ q.tasks := fun t ht => (by rw [hnil] at ht; cases ht)
  exact ⟨h.before, h.after, h.failed, fun _ => ⟨hnil, hnone⟩, fun t ht => absurd ht (hno t),
    fun t ht => absurd ht (hno t), fun x hx hl => absurd hl (hnone x hx)⟩

/-- **One event.** -/
theorem LockedAt.step {w : World Hash} (h : LockedAt sdk w) (e : Event Hash) :
    LockedAt sdk (w.step sdk e) := by
  have he := step_effect sdk w e
  generalize w.step sdk e = w' at he ⊢
  cases he with
  | idle => exact h
  | start o initial hw hs =>
    refine ⟨fun x hx => Nat.le_succ_of_le (h.lives x hx), fun q hq => ?_⟩
    cases hq
    have hnone : ∀ x ∈ w.sent, x.1 ≠ w.life + 1 := by
      intro x hx
      have := h.lives x hx
      omega
    have htasks : ∀ t, t ∉ (Proc.new o w.store.loadAll initial).tasks := fun _ => List.not_mem_nil
    exact ⟨fun _ => rfl, fun hu => (by cases hu), fun _ => rfl, fun _ => ⟨rfl, hnone⟩,
      fun t ht => absurd ht (htasks t), fun t ht => absurd ht (htasks t),
      fun x hx hl => absurd hl (hnone x hx)⟩
  | crash => exact ⟨h.lives, fun q hq => (by cases hq)⟩
  | cancel q hq =>
    refine ⟨h.lives, fun q' hq' => ?_⟩
    cases hq'
    have hold := h.proc q hq
    exact ⟨hold.before, hold.after, hold.failed, hold.idle, hold.sized, hold.records, hold.sent⟩
  | configure u q q' hq hst hc =>
    refine ⟨h.lives, fun q₁ hq₁ => ?_⟩
    cases hq₁
    exact ((h.proc q hq).configure hc).setProc _
  | poll us q hq hm =>
    refine ⟨h.lives, fun q' hq' => ?_⟩
    cases hq'
    have hold := h.proc q hq
    refine ⟨fun _ => hold.before (by rw [hm]; rfl), fun hu => ?_, fun hf => ?_, hold.idle, hold.sized,
      hold.records, hold.sent⟩
    · cases hu
    · cases hf
  | main ok q w₁ hq hm =>
    obtain ⟨hsent, hlife⟩ := hm.sent_eq
    refine ⟨by rw [hsent, hlife]; exact h.lives, fun q' hq' => ?_⟩
    exact (h.proc q hq).mainEffect hm hq hq'
  | task i te q t t' w₁ queue hq hi heff =>
    obtain ⟨hlife, hsent⟩ := heff.sent_cases
    refine ⟨?_, fun q' hq' => ?_⟩
    · show ∀ x ∈ w₁.sent, x.1 ≤ w₁.life
      rw [hlife]
      rcases hsent with hsent | ⟨p, -, hsent⟩
      · rw [hsent]
        exact h.lives
      · rw [hsent]
        intro x hx
        rcases List.mem_append.1 hx with hx | hx
        · exact h.lives x hx
        · rw [List.mem_singleton.1 hx]
    · cases hq'
      exact ((h.proc q hq).taskEffect hi heff).setProc _

/-- **It holds in every state of every run.** -/
theorem lockedAt_run (sdk : SDK Hash) (st : Store Hash) (es : List (Event Hash)) :
    LockedAt sdk ((World.init st).run sdk es) := by
  have h0 : LockedAt sdk (World.init st) :=
    ⟨fun x hx => (by cases hx), fun q hq => (by cases hq)⟩
  exact Along.inv (C := fun _ _ => True) (fun _ e h _ => h.step e)
    (Along.of_forall fun _ _ _ => trivial) h0

theorem lockedAt_steps (sdk : SDK Hash) (st : Store Hash) (es : List (LiveEvent Hash)) :
    LockedAt sdk ((Live.init st).steps sdk es).world := by
  obtain ⟨ds, hds⟩ := exists_world_run sdk (Live.init st) es
  rw [hds]
  exact lockedAt_run sdk st ds

/-! ## The calls of `ConfigureBootstrap` -/

/-- A process with fixed parameters refuses every update: an invalid one as such, any
other because the parameters are fixed. -/
theorem configure_locked {q : Proc Hash} (h : q.bootstrapLocked = true) (u : BootstrapUpdate) :
    q.configureBootstrap u = .error ((Proc.checkUpdate u).getD .bootstrapLocked) := by
  have hf : q.funded = true := by simp [Proc.funded, h]
  unfold Proc.configureBootstrap
  cases Proc.checkUpdate u with
  | none => simp [hf]
  | some e => rfl

theorem configure_unlocked {q q' : Proc Hash} {u : BootstrapUpdate}
    (h : q.configureBootstrap u = .ok q') : q.bootstrapLocked = false := by
  by_contra hl
  rw [configure_locked (by simpa using hl)] at h
  cases h

/-- A process with fixed parameters goes on, and keeps them. -/
theorem step_locked {w : World Hash} {q : Proc Hash} (h : LockedAt sdk w) (hq : w.proc = some q)
    (hl : q.bootstrapLocked = true) {e : Event Hash} (he : SameLife e) :
    ∃ q', (w.step sdk e).proc = some q' ∧ SameParams q q' ∧ (w.step sdk e).life = w.life := by
  have hex : (∃ q', (w.step sdk e).proc = some q') ∧ (w.step sdk e).life = w.life := by
    have heff := step_effect sdk w e
    generalize w.step sdk e = w' at heff ⊢
    cases heff with
    | idle => exact ⟨⟨q, hq⟩, rfl⟩
    | start => exact he.elim
    | crash => exact he.elim
    | cancel | configure | poll => exact ⟨⟨_, rfl⟩, rfl⟩
    | main ok q₀ w₁ hq₀ hm =>
      refine ⟨?_, hm.sent_eq.2⟩
      have hold := h.proc q₀ hq₀
      rw [hq] at hq₀
      cases hq₀
      cases hm with
      | wait => exact ⟨q, hq⟩
      | newFails hst =>
        -- `New` fails only before the parameters are fixed
        have hu : q.main.unlocked = true := by
          cases hmain : q.main <;> rw [hmain] at hst <;> first | rfl | cases hst
        rw [hold.before hu] at hl
        cases hl
      | _ => exact ⟨_, rfl⟩
    | task i te q₀ t t' w₁ queue hq₀ hi ht => exact ⟨⟨_, rfl⟩, ht.sent_cases.1⟩
  obtain ⟨⟨q', hq'⟩, hlife⟩ := hex
  refine ⟨q', hq', ?_, hlife⟩
  rcases step_params hq hq' with hp | ⟨u, -, hc⟩
  · exact hp
  · rw [configure_unlocked hc] at hl
    cases hl

/-! ## Runs -/

/-- The number of chains aimed at is the current one. -/
def Live.OnTarget (s : Live Hash) : Prop :=
  ∀ q, s.world.proc = some q → s.control.state.chainsTarget = q.numChains

theorem State.after_chainsTarget (st : State) (r : Option Record) :
    (st.after r).chainsTarget = st.chainsTarget := by
  cases r with
  | none => rfl
  | some r => cases r <;> rfl

/-- The main goroutine writes the number of chains it reads. -/
theorem Proc.bootWrite_chainsTarget {q q' : Proc Hash} {st : State}
    (h : st.chainsTarget = q.numChains) : (q.bootWrite q' st).chainsTarget = q.numChains := by
  unfold Proc.bootWrite
  dsimp only
  split_ifs
  · split
    · rfl
    · exact h
  · split
    · rfl
    · exact h

theorem Live.OnTarget.step {s : Live Hash} (h : s.OnTarget) (e : LiveEvent Hash) :
    (s.step sdk e).OnTarget := by
  have heff := live_effect sdk s e
  generalize s.step sdk e = s' at heff ⊢
  -- a step of the world other than a change of the parameters
  have hworld : ∀ {d : Event Hash} {q q' : Proc Hash}, s.world.proc = some q →
      (∀ u, d ≠ .configure u) → (s.world.step sdk d).proc = some q' → q'.numChains = q.numChains := by
    intro d q q' hq hd hq'
    rcases step_params hq hq' with hp | ⟨u, hu, -⟩
    · exact hp.numChains
    · exact absurd hu (hd u)
  intro q' hq'
  cases heff with
  | idle | setTPS => exact h q' hq'
  | outside d q hq hd =>
    have hne : ∀ u, d ≠ .configure u := by
      rcases hd with rfl | rfl | ⟨us, rfl⟩ <;> simp
    rw [hworld hq hne hq']
    exact h q hq
  | newFails ok q hq hst hw =>
    rw [hw] at hq'
    cases hq'
  | startChain ok q hq =>
    rw [hworld hq (by simp) hq']
    exact h q hq
  | start o initial hw hs =>
    rw [step_start hw, if_pos hs] at hq'
    cases hq'
    rfl
  | task i te q hq =>
    rw [hworld hq (by simp) hq']
    exact (State.after_chainsTarget _ _).trans (h q hq)
  | configure u q q₁ hq hst hc =>
    rw [step_configure hq hst hc] at hq'
    cases hq'
    rfl
  | boot ok q q₁ hq hm hf hq₁ =>
    rw [hworld hq (by simp) hq']
    exact Proc.bootWrite_chainsTarget (h q hq)
  | runChains ok q hq =>
    have hsame : s.world.proc = some q' := hq'
    rw [hq] at hsame
    cases hsame
    rfl
  | stop | returned => exact h q' hq'

/-! ### The lifecycle in the test for funding -/

/-- `starting` or `bootstrapping`: the lifecycles in which `ConfigureBootstrap` applies
an update. -/
def Lifecycle.early (l : Lifecycle) : Bool := l = .starting || l = .bootstrapping

theorem State.early_setTPS (st : State) (tps : ℤ) :
    (st.setTPS tps).lifecycle.early = st.lifecycle.early := by
  unfold State.setTPS
  dsimp only
  split_ifs with hr hp
  · rw [hr.2]
    rfl
  · rcases hp.2 with h | h <;> rw [h] <;> rfl
  · rfl

/-- What a goroutine records makes no lifecycle early, and only a failure ends an early
one. -/
theorem State.early_after (st : State) (r : Option Record) :
    ((st.after r).lifecycle.early = true → st.lifecycle.early = true) ∧
      (r ≠ some .fail → (st.after r).lifecycle.early = st.lifecycle.early) := by
  cases r with
  | none => exact ⟨id, fun _ => rfl⟩
  | some r =>
    cases r with
    | ok =>
      have h : (st.after (some .ok)).lifecycle.early = st.lifecycle.early := by
        show (if st.lifecycle = .degraded then Lifecycle.running else st.lifecycle).early = _
        split_ifs with hd
        · rw [hd]
          rfl
        · rfl
      exact ⟨fun h' => h.symm.trans h', fun _ => h⟩
    | fail =>
      refine ⟨fun h => ?_, fun h => absurd rfl h⟩
      change (if degradedAfterFailures ≤ st.consecutiveArcadeFailures + 1 then Lifecycle.degraded
        else st.lifecycle).early = true at h
      split_ifs at h
      · cases h
      · exact h

/-- The lifecycle is early exactly until `Run` starts the chains or fails. -/
def Live.Reported (s : Live Hash) : Prop := ∀ q, s.world.proc = some q →
  (q.bootstrapping = true → s.control.state.lifecycle.early = true) ∧
    (q.main.isFailed = true → s.control.state.lifecycle.early = false)

theorem Proc.bootstrapping_iff {q : Proc Hash} :
    q.bootstrapping = true ↔ q.main ≠ .chains ∧ q.main.isFailed = false := by
  unfold Proc.bootstrapping
  cases q.main <;> simp [Main.isFailed]

theorem Live.Reported.step {s : Live Hash} (h : s.Reported) (hok : LiveOK s) (e : LiveEvent Hash) :
    (s.step sdk e).Reported := by
  have heff := live_effect sdk s e
  generalize s.step sdk e = s' at heff ⊢
  -- a process in `runChains`
  have hchains : ∀ {q : Proc Hash} {l : Lifecycle}, q.main = .chains →
      (q.bootstrapping = true → l.early = true) ∧ (q.main.isFailed = true → l.early = false) := by
    intro q l hm
    refine ⟨fun hb => absurd hm (Proc.bootstrapping_iff.1 hb).1, fun hf => ?_⟩
    rw [hm] at hf
    cases hf
  intro q' hq'
  cases heff with
  | idle | returned => exact h q' hq'
  | outside d q hq hd =>
    have hold := h q hq
    rcases hd with rfl | rfl | ⟨us, rfl⟩
    · rw [step_crash hq] at hq'
      cases hq'
    · rw [step_cancel hq] at hq'
      cases hq'
      exact hold
    · simp only [World.step, hq] at hq'
      split at hq'
      · rename_i hm
        split_ifs at hq'
        · rw [hq] at hq'
          cases hq'
          exact hold
        · cases hq'
          refine ⟨fun _ => hold.1 (Proc.bootstrapping_iff.2 ?_), fun hf => (by cases hf)⟩
          rw [hm]
          simp [Main.isFailed]
      · rw [hq] at hq'
        cases hq'
        exact hold
  | newFails ok q hq hst hw =>
    rw [hw] at hq'
    cases hq'
  | startChain ok q hq hm => exact hchains (main_chains hq hm hq')
  | start o initial hw hs =>
    rw [step_start hw, if_pos hs] at hq'
    cases hq'
    exact ⟨fun _ => rfl, fun hf => (by cases hf)⟩
  | setTPS tps q hq =>
    show _ ∧ _
    rw [show (s.control.setTPS tps).state.lifecycle.early = _ from State.early_setTPS _ tps]
    exact h q' hq'
  | task i te q hq =>
    have hold := h q hq
    have hmain : q'.main = q.main := by
      rw [step_task hq] at hq'
      rcases taskStep_effect sdk s.world q i te with hw | ⟨t, w', queue, t', hi, heff, hw⟩
      · rw [hw, hq] at hq'
        cases hq'
        rfl
      · rw [hw] at hq'
        cases hq'
        rfl
    obtain ⟨hto, heq⟩ := s.control.state.early_after (q.record sdk i te)
    refine ⟨fun hb => ?_, fun hf => ?_⟩
    · -- before `runChains` no chain runs, so no failure is recorded
      have hb' : q.bootstrapping = true := by
        rw [Proc.bootstrapping_iff, hmain] at hb
        exact Proc.bootstrapping_iff.2 hb
      have hrun : s.run = .bootstrap := by
        by_contra hr
        exact (Proc.bootstrapping_iff.1 hb').1 (hok.main hr q hq)
      refine (heq fun hrec => ?_).trans (hold.1 hb')
      obtain ⟨t, ht, hk⟩ := Proc.record_fail hrec
      exact hok.kinds hrun q hq t ht hk
    · rw [hmain] at hf
      rw [Bool.eq_false_iff]
      intro hearly
      rw [hold.2 hf] at hto
      exact absurd (hto hearly) (by simp)
  | configure u q q₁ hq hst hc =>
    rw [step_configure hq hst hc] at hq'
    cases hq'
    obtain ⟨-, n, f, m, rfl⟩ := configure_ok hc
    exact h q hq
  | boot ok q q₁ hq hm hf hq₁ =>
    have hsame : q₁ = q' := by
      rw [hq₁] at hq'
      exact Option.some.inj hq'
    subst hsame
    have hold := (h q hq).1 (Proc.bootstrapping_iff.2 ⟨hm, hf⟩)
    show (_ → (q.bootWrite q₁ s.control.state).lifecycle.early = true) ∧
      (_ → (q.bootWrite q₁ s.control.state).lifecycle.early = false)
    unfold Proc.bootWrite
    dsimp only
    refine ⟨fun hb => ?_, fun hfail => ?_⟩
    · rw [(Proc.bootstrapping_iff.1 hb).2]
      cases q.main <;> first | rfl | exact hold
    · rw [hfail]
      show (if q.ctxDone then Lifecycle.stopped else .failed).early = false
      split_ifs <;> rfl
  | runChains ok q hq hm | stop ok q hq hm =>
    have hsame : s.world.proc = some q' := hq'
    rw [hq] at hsame
    cases hsame
    exact hchains hm

/-- **The test for funding.** Once `New` has returned, the condition under which
`ConfigureBootstrap` answers `ErrBootstrapLocked` is the one on the lifecycle of the state
record. -/
theorem funded_eq (sdk : SDK Hash) (st : Store Hash) (es : List (LiveEvent Hash)) {q : Proc Hash}
    (hq : ((Live.init st).steps sdk es).world.proc = some q) :
    q.funded = (q.bootstrapLocked || q.stage ≠ .none ||
      !((Live.init st).steps sdk es).control.state.lifecycle.early || q.queue ≠ [] ||
      q.tasks.any fun t => t.kind = .sustain && !t.ended) := by
  have hlocked := lockedAt_steps sdk st es
  have hrep : LiveOK ((Live.init st).steps sdk es) ∧ ((Live.init st).steps sdk es).Reported :=
    Along.inv (C := fun _ _ => True) (I := fun s : Live Hash => LiveOK s ∧ s.Reported)
      (fun _ e h _ => ⟨h.1.step e, h.2.step h.1 e⟩) (Along.of_forall fun _ _ _ => trivial)
      ⟨LiveOK.init st, fun q hq => (by cases hq)⟩
  obtain ⟨hearly, hfailed⟩ := hrep.2 q hq
  unfold Proc.funded
  by_cases hl : q.bootstrapLocked = true
  · simp [hl]
  · -- without the lock the chains do not run, and the lifecycle tells whether `Run` failed
    have hb : q.bootstrapping = ((Live.init st).steps sdk es).control.state.lifecycle.early := by
      by_cases hf : q.main.isFailed = true
      · rw [hfailed hf, Bool.eq_false_iff]
        intro hb
        rw [(Proc.bootstrapping_iff.1 hb).2] at hf
        cases hf
      · have hu : q.main ≠ .chains := by
          intro hm
          rcases (hlocked.proc q hq).after (by rw [hm]; rfl) with h | h
          · exact hl h
          · exact hf h
        have hboot := Proc.bootstrapping_iff.2 ⟨hu, by simpa using hf⟩
        rw [hboot, hearly hboot]
    rw [hb]

/-- A process with fixed parameters goes on until it ends, and keeps them. -/
theorem steps_locked {s : Live Hash} {q : Proc Hash} (h : LockedAt sdk s.world)
    (hq : s.world.proc = some q) (hl : q.bootstrapLocked = true) {fs : List (LiveEvent Hash)}
    (hfs : ∀ e ∈ fs, e.SameLife) :
    LockedAt sdk (s.steps sdk fs).world ∧ (s.steps sdk fs).world.life = s.world.life ∧
      ∃ q', (s.steps sdk fs).world.proc = some q' ∧ SameParams q q' := by
  have hlife : Along (Live.step sdk) (fun _ e => e.SameLife) s fs :=
    Along.of_forall fun e he _ => hfs e he
  refine hlife.inv (I := fun s' : Live Hash => LockedAt sdk s'.world ∧ s'.world.life = s.world.life ∧
    ∃ q', s'.world.proc = some q' ∧ SameParams q q') ?_ ⟨h, rfl, q, hq, .refl q⟩
  rintro s' e ⟨hL, hlife, q', hq', hp⟩ he
  rcases live_world sdk s' e with hw | ⟨d, hw, rfl⟩
  · rw [hw]
    exact ⟨hL, hlife, q', hq', hp⟩
  · rw [hw]
    obtain ⟨q'', hq'', hp', hlife'⟩ := step_locked hL hq' (hp.locked hl) he
    exact ⟨hL.step d, hlife'.trans hlife, q'', hq'', hp.trans hp'⟩

/-- **Bootstrap parameters are frozen.** In every state of every run with a process `q`:

* the number of chains aimed at is the current one;
* a call of `ConfigureBootstrap` succeeds only before the parameters are fixed, and until
  then nothing is built or sent;
* once they are fixed, `q` goes on with them for the rest of its lifetime, everything it
  sends is built under them, and every further call is refused and changes nothing. -/
theorem bootstrap_config_frozen (sdk : SDK Hash) (st : Store Hash) (es : List (LiveEvent Hash))
    {q : Proc Hash} (hq : ((Live.init st).steps sdk es).world.proc = some q) :
    let s := (Live.init st).steps sdk es
    s.control.state.chainsTarget = q.numChains ∧
    (∀ u q', q.configureBootstrap u = .ok q' → q.bootstrapLocked = false) ∧
    (q.bootstrapLocked = false → q.tasks = [] ∧ ∀ x ∈ s.world.sent, x.1 ≠ s.world.life) ∧
    (q.bootstrapLocked = true → ∀ fs : List (LiveEvent Hash), (∀ e ∈ fs, e.SameLife) →
      ∃ q', (s.steps sdk fs).world.proc = some q' ∧
        q'.bootstrapLocked = true ∧ q'.config = q.config ∧ q'.mode = q.mode ∧
        (∀ x ∈ (s.steps sdk fs).world.sent, x.1 = s.world.life → BuiltUnder sdk q x.2) ∧
        ∀ u, q'.configureBootstrap u = .error ((Proc.checkUpdate u).getD .bootstrapLocked) ∧
          (s.steps sdk fs).step sdk (.world (.configure u)) = s.steps sdk fs) := by
  intro s
  have hlocked : LockedAt sdk s.world := lockedAt_steps sdk st es
  have htarget : s.OnTarget :=
    Along.inv (C := fun _ _ => True) (fun _ e h _ => h.step e)
      (Along.of_forall fun _ _ _ => trivial) (fun q hq => (by cases hq))
  refine ⟨htarget q hq, fun u q' hc => configure_unlocked hc, (hlocked.proc q hq).idle, ?_⟩
  intro hl fs hfs
  obtain ⟨hL, hlife, q', hq', hp⟩ := steps_locked hlocked hq hl hfs
  have hl' := hp.locked hl
  refine ⟨q', hq', hl', hp.config_eq, hp.mode, fun x hx hx' => ?_,
    fun u => ⟨configure_locked hl' u, ?_⟩⟩
  · exact (hp.symm_of_locked hl).builtUnder ((hL.proc q' hq').sent x hx (hx'.trans hlife.symm))
  · simp only [Live.step, Live.worldStep, hq', configure_locked hl' u]
    exact ite_self _

/-- An update that is not valid is refused as such also when the parameters are fixed. -/
theorem locked_refuses_as_invalid :
    ∃ q, ((Live.init Store.empty).steps Concrete.plainSDK
        (Concrete.worldEvents configuredRun)).world.proc = some q ∧ q.bootstrapLocked = true ∧
      q.configureBootstrap ⟨some 0, none, none⟩ = .error (.invalid "numChains must be positive") ∧
      q.configureBootstrap ⟨some 4, none, none⟩ = .error .bootstrapLocked := by
  have hrun : ((Live.init Store.empty).steps Concrete.plainSDK
      (Concrete.worldEvents configuredRun)).world.proc.any (·.bootstrapLocked) = true := by
    decide +kernel
  obtain ⟨q, hq, hl⟩ := (Option.any_eq_true _ _).1 hrun
  exact ⟨q, hq, hl, rfl, configure_locked hl _⟩

theorem configured_run_frozen :
    ∃ q, ((Live.init Store.empty).steps Concrete.plainSDK
        (Concrete.worldEvents configuredRun)).world.proc = some q ∧ q.bootstrapLocked = true ∧
      ∀ fs : List (LiveEvent Bytes), (∀ e ∈ fs, e.SameLife) →
        ∃ q', (((Live.init Store.empty).steps Concrete.plainSDK
          (Concrete.worldEvents configuredRun)).steps Concrete.plainSDK fs).world.proc = some q' ∧
          q'.config = ⟨3, 2, 5⟩ := by
  have hrun : ((Live.init Store.empty).steps Concrete.plainSDK
      (Concrete.worldEvents configuredRun)).world.proc.any
      (fun q => q.bootstrapLocked && decide (q.config = ⟨3, 2, 5⟩)) = true := by
    decide +kernel
  obtain ⟨q, hq, hl⟩ := (Option.any_eq_true _ _).1 hrun
  obtain ⟨hl, hc⟩ := Bool.and_eq_true_iff.1 hl
  obtain ⟨-, -, -, hfrozen⟩ := bootstrap_config_frozen Concrete.plainSDK Store.empty
    (Concrete.worldEvents configuredRun) hq
  refine ⟨q, hq, hl, fun fs hfs => ?_⟩
  obtain ⟨q', hq', -, hcfg, -⟩ := hfrozen hl fs hfs
  exact ⟨q', hq', hcfg.trans (of_decide_eq_true hc)⟩

end TxGen
