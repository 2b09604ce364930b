import TxGen.Proof.Concrete
import TxGen.Proof.Replay
import TxGen.Proof.Stages

/-!
# The stage and the stored UTXOs

The commit of a fanout and the write of the stage it reaches are two store
transactions, in `bootstrapFull` and in `replayPending`. From the commit of an L1 record
at stage `none` to the write of `l1Done` the stage lags (`InWindow`). As long as no
process ends there, the file that a start finds does not lag: at stage `none` no stored
UTXO is an output of a fanout, and a replay that is interrupted and taken up again
leaves the store that one uninterrupted replay leaves.
-/

namespace TxGen

open Lib
open scoped List

variable {Hash : Type} {sdk : SDK Hash}

/-- The process stands between the commit of an L1 record and the write of `l1Done`: in
`bootstrapFull` or in the replay. A replayed L2 or sustain record reaches the stage that
is persisted already. -/
def InWindow (w : World Hash) : Prop :=
  ∃ q, w.proc = some q ∧ ((q.main = .l1 ∧ ∃ t ∈ q.tasks, t.accepted = true) ∨
    ∃ rest changed unknown, q.main = .replayStage .l1Done rest changed unknown)

instance (m : Main Hash) :
    Decidable (∃ rest changed unknown, m = .replayStage .l1Done rest changed unknown) :=
  match m with
  | .replayStage .l1Done rest changed unknown => isTrue ⟨rest, changed, unknown, rfl⟩
  | .replayStage .none .. | .replayStage .l2Partial .. | .replayStage .l2Done ..
  | .replayStage .unknown .. | .persist _ | .replay .. | .ready | .waitForSeed | .pushSeed _
  | .lock _ | .full | .l1 | .l2Start | .l2 | .markDone | .chains | .failed _ => isFalse (by simp)

instance [DecidableEq Hash] (w : World Hash) : Decidable (InWindow w) :=
  inferInstanceAs (Decidable (∃ q ∈ w.proc, (q.main = .l1 ∧ ∃ t ∈ q.tasks, t.accepted = true) ∨
    ∃ rest changed unknown, q.main = .replayStage .l1Done rest changed unknown))

/-- The output `u` was created by a committed fanout. -/
def FanoutOutput (w : World Hash) (u : UTXO) : Prop :=
  ∃ p ∈ w.committed, (p.stage = some .l1Done ∨ p.stage = some .l2Partial) ∧ u ∈ p.created

instance [DecidableEq Hash] (w : World Hash) (u : UTXO) : Decidable (FanoutOutput w u) :=
  inferInstanceAs (Decidable (∃ p ∈ w.committed,
    (p.stage = some .l1Done ∨ p.stage = some .l2Partial) ∧ u ∈ p.created))

/-- No process ends in the window. -/
def NoWindowCrash (w : World Hash) : Event Hash → Prop
  | .crash => ¬InWindow w
  | _ => True

instance [DecidableEq Hash] (w : World Hash) : ∀ e, Decidable (NoWindowCrash w e)
  | .crash => inferInstanceAs (Decidable (¬InWindow w))
  | .start _ _ | .cancel | .configure _ | .poll _ | .main _ | .task _ _ => isTrue trivial

/-- The step commits the record of an L1 fanout while the persisted stage is `none`. -/
def CommitsEarly (w : World Hash) (e : Event Hash) : Prop :=
  w.store.stageOr = .none ∧ ∃ q, w.proc = some q ∧
    ((∃ i t p, q.tasks[i]? = some t ∧ t.kind = .l1 ∧ t.pc = .accepted p ∧
        e = .task i (.commit true)) ∨
      ∃ p rest changed unknown, q.main = .replay (p :: rest) changed unknown ∧
        p.stage = some .l1Done ∧ e = .main true)

/-- The next step of the main goroutine writes the stage. -/
def Main.writesStage : Main Hash → Bool
  | .replay [] _ unknown => unknown ≠ 0
  | .replayStage .. | .full | .l1 | .l2Start | .l2 | .markDone => true
  | _ => false

/-- The writes of the stage succeed. -/
def StageWritesOK (w : World Hash) : Event Hash → Prop
  | .main ok => ok = true ∨ ∀ q, w.proc = some q → q.main.writesStage = false
  | _ => True

instance [DecidableEq Hash] (w : World Hash) : ∀ e, Decidable (StageWritesOK w e)
  | .main ok =>
    inferInstanceAs (Decidable (ok = true ∨ ∀ q ∈ w.proc, q.main.writesStage = false))
  | .start _ _ | .crash | .cancel | .configure _ | .poll _ | .task _ _ => isTrue trivial

/-- At stage `none`, outside the window, no fanout output is stored. -/
def NoLag (w : World Hash) : Prop :=
  w.store.stageOr = .none → ¬InWindow w → ∀ u ∈ w.store.loadAll, ¬FanoutOutput w u

section Window

variable {w w' : World Hash} {q q' : Proc Hash}

theorem inWindow_congr (hq : w.proc = some q) (hq' : w'.proc = some q') (hm : q'.main = q.main)
    (ht : q'.tasks = q.tasks) (h : InWindow w) : InWindow w' := by
  obtain ⟨x, hx, h⟩ := h
  rw [hq] at hx
  cases hx
  exact ⟨q', hq', by rwa [hm, ht]⟩

/-- A point outside the window. -/
theorem not_inWindow (hq : w.proc = some q) (h1 : q.main ≠ .l1)
    (h2 : ∀ rest changed unknown, q.main ≠ .replayStage .l1Done rest changed unknown) :
    ¬InWindow w := by
  rintro ⟨x, hx, ⟨hm, -⟩ | ⟨rest, ch, un, hm⟩⟩ <;> rw [hq] at hx <;> cases hx
  · exact h1 hm
  · exact h2 rest ch un hm

theorem not_inWindow_of_none (hw : w.proc = none) : ¬InWindow w := by
  rintro ⟨x, hx, -⟩
  rw [hw] at hx
  cases hx

/-- In the window the next step is the write of the stage. -/
theorem not_inWindow_of_writesStage (hq : w.proc = some q) (h : q.main.writesStage = false) :
    ¬InWindow w := by
  refine not_inWindow hq (fun hm => ?_) fun rest ch un hm => ?_ <;> rw [hm] at h <;> cases h

/-- Where no stage is written, a failed write ends `New` or `Run`. -/
theorem mainStep_false (h : q.main.writesStage = false) :
    w.mainStep q false = w.mainStep q true ∨ w.mainStep q false = w.exit ∨
      q.main.starting = false ∧ ∃ queue e, w.mainStep q false = w.fail { q with queue } e := by
  unfold World.mainStep
  split
  case h_2 => exact Or.inr (Or.inl rfl)
  case h_3 changed unknown hm =>
    rw [hm] at h
    have hu : unknown = 0 := by simpa [Main.writesStage] using h
    rw [if_pos hu, if_pos hu]
    exact Or.inl rfl
  case h_4 p rest changed unknown hm =>
    by_cases hp : p.spent = [] ∧ p.created = []
    · rw [if_pos hp, if_pos hp]
      exact Or.inl rfl
    · rw [if_neg hp]
      exact Or.inr (Or.inl rfl)
  case h_9 u rest hm => exact Or.inr (Or.inr ⟨by rw [hm]; rfl, _, _, rfl⟩)
  case h_5 hm | h_11 hm | h_12 hm | h_13 hm | h_14 hm | h_15 hm =>
    rw [hm] at h
    cases h
  all_goals exact Or.inl rfl

/-- The stage invariant, when the writes of the stage succeed. -/
theorem StageInv.stageStep (h : StageInv sdk w) (hinj : Function.Injective sdk.txHash)
    {e : Event Hash} (hs : SourceOK sdk w e) (he : StageWritesOK w e)
    (hf : Fresh sdk (w.step sdk e).imported (w.step sdk e).committed) :
    StageInv sdk (w.step sdk e) := by
  by_cases hok : WritesOK e
  · exact h.step hinj hs hok hf
  -- a write that fails is none of the stage
  cases e with
  | main ok =>
    have hfalse : ok = false := by simpa [WritesOK] using hok
    subst hfalse
    cases hq : w.proc with
    | none => rwa [step_none hq (by simp)]
    | some q =>
      have hI' := step_inv h.inv hinj hs hf
      have hws := he.resolve_left (by simp) q hq
      have hstep : ∀ ok, w.step sdk (.main ok) = w.mainStep q ok := step_main hq
      rw [hstep] at hf hI' ⊢
      rcases mainStep_false (w := w) hws with heq | heq | ⟨-, queue, err, heq⟩
      · rw [heq, ← hstep] at hf ⊢
        exact h.step hinj trivial rfl hf
      · rw [heq] at hI' ⊢
        exact ⟨hI', h.staged, by rintro x ⟨⟩⟩
      · rw [heq] at hI' ⊢
        exact StageInv.setProc hI' h.staged trivial
  | _ => exact absurd trivial hok

end Window

section Lag

variable {w w' : World Hash} {q q' : Proc Hash}

/-- A step from outside the window that keeps the stored UTXOs and commits nothing. -/
theorem NoLag.keep (h : NoLag w) (hw : ¬InWindow w) (hor : w'.store.stageOr = w.store.stageOr)
    (hstore : w'.store.loadAll = w.store.loadAll) (hcom : w'.committed = w.committed) :
    NoLag w' := by
  intro hst _ u hu ⟨p, hp, hps⟩
  rw [hstore] at hu
  exact h (hor ▸ hst) hw u hu ⟨p, hcom ▸ hp, hps⟩

/-- A new output is imported. -/
theorem NoLag.importUTXO (sdk : SDK Hash) (h : NoLag w) (hw : ¬InWindow w) {u : UTXO} (q : Proc Hash)
    (hu : u ∈ w.store.loadAll ∨ ∀ v ∈ known w.imported w.committed, sdk.outpoint v ≠ sdk.outpoint u) :
    NoLag ((w.importUTXO u).setProc q) := by
  intro hst _ v hv ⟨p, hp, hps, hvc⟩
  have hmem : v ∈ w.store.loadAll ∨ v = u := by
    have hv' : v ∈ (w.store.saveUTXO u).loadAll := hv
    rcases Table.mem_insert.1 hv' with h | ⟨-, h⟩
    · exact Or.inr h
    · exact Or.inl h
  rcases hmem with hmem | rfl
  · exact h hst hw v hmem ⟨p, hp, hps, hvc⟩
  · rcases hu with hu | hnew
    · exact h hst hw v hu ⟨p, hp, hps, hvc⟩
    · exact hnew v (mem_known.2 (Or.inr ⟨p, hp, hvc⟩)) rfl

/-- A step of the main goroutine. -/
theorem NoLag.mainEffect (h : NoLag w) (hS : StageInv sdk w) (hq : w.proc = some q)
    (he : MainEffect w q true w') : NoLag w' := by
  have hp := hS.inv.proc q hq
  have hpt := hS.point q hq
  unfold ProcOK at hp
  unfold StagePoint at hpt
  have hout : ∀ {m : Main Hash}, q.main = m → m ≠ .l1 →
      (∀ rest changed unknown, m ≠ .replayStage .l1Done rest changed unknown) → ¬InWindow w := by
    rintro m rfl h1 h2
    exact not_inWindow hq h1 h2
  -- a stage other than `none` is written
  have hwrite : ∀ (st : Stage) (q' : Proc Hash), st ≠ .none →
      NoLag ((w.writeStage true st).setProc q') := fun st q' hne hst => absurd hst hne
  cases he with
  | wait => exact h
  | persist u rest hm =>
    rw [hm] at hp
    refine h.importUTXO sdk (hout hm (by simp) (by simp)) _ ?_
    rcases hp.2 with ⟨hin, -⟩ | ⟨-, -, hnew⟩
    · exact Or.inl (hin u List.mem_cons_self)
    · exact Or.inr (hnew.2 u List.mem_cons_self)
  | pushSeed u rest hm =>
    rw [hm] at hp
    exact h.importUTXO sdk (hout hm (by simp) (by simp)) _
      (Or.inr (hp.2.2 u List.mem_cons_self))
  | replayCommit p rest changed unknown hm =>
    rw [hm] at hp
    obtain ⟨st, hne, hor, hst, -⟩ :=
      hS.staged.commit hS.inv.ledger (hp.rest.mem_iff.1 List.mem_cons_self)
    rw [hst]
    rcases hor with hor | ⟨-, rfl⟩
    · -- the persisted stage is that of the record
      exact fun hnone => absurd (hor.symm.trans hnone) hne
    · exact fun _ hw => absurd ⟨_, rfl, Or.inr ⟨rest, true, unknown, rfl⟩⟩ hw
  | replayStage _ st rest changed unknown hm =>
    rw [hm] at hpt
    exact hwrite st _ hpt.1
  | restoredUnknown _ changed unknown hm hu =>
    rw [hm] at hp
    exact absurd hp.unknown hu
  | persisted _ hm | replayUnknown _ _ _ _ _ hm | restored _ _ hm | waitForSeed _ hm | ready _ hm
  | seeded _ hm | lock _ _ hm | startChain _ _ _ hm =>
    exact h.keep (hout hm (by simp) (by simp)) rfl rfl rfl
  | beginL1 _ _ _ hm =>
    rw [hm] at hpt
    exact h.keep (hout hm (by simp) (by simp)) hpt.1.symm rfl rfl
  | endL1 => exact hwrite .l1Done _ (by simp)
  | beginL2 => exact hwrite .l2Partial _ (by simp)
  | endL2 | markDone => exact hwrite .l2Done _ (by simp)
  | fail _ _ _ hst hl1 =>
    refine h.keep ?_ rfl rfl rfl
    rintro ⟨x, hx, ⟨hm, t, ht, hacc⟩ | ⟨rest, ch, un, hm⟩⟩ <;> rw [hq] at hx <;> cases hx
    · rw [hl1 hm t ht] at hacc
      cases hacc
    · rw [hm] at hst
      cases hst
  | failAt _ st queue e hm =>
    rcases hm with ⟨hm, rfl⟩ | ⟨-, rfl⟩
    · rw [hm] at hpt
      exact h.keep (hout hm (by simp) (by simp)) hpt.1.symm rfl rfl
    · exact hwrite .l2Partial _ (by simp)

/-- A step of a goroutine: only the L1 fanout runs at stage `none`, and its commit
enters the window. -/
theorem NoLag.taskEffect (h : NoLag w) (hS : StageInv sdk w) (hq : w.proc = some q) {i : ℕ}
    {t t' : Task Hash} {e : TaskEvent} {queue : List UTXO} (hi : q.tasks[i]? = some t)
    (he : TaskEffect sdk w q t e w' queue t') :
    NoLag (w'.setProc { q with queue, tasks := q.tasks.set i t' }) := by
  have htm := List.mem_of_getElem? hi
  obtain ⟨hor, -⟩ := he.pending ((hS.inv.proc q hq).custody hi) htm
  have hlate : w.store.stageOr ≠ .none →
      NoLag (w'.setProc { q with queue, tasks := q.tasks.set i t' }) :=
    fun hne hst => absurd (hor.symm.trans hst) hne
  rcases hS.kind hq htm with ⟨hm, hone, hk, hst⟩ | ⟨-, -, hst⟩ | ⟨-, -, hst⟩
  · obtain ⟨ha, hcases⟩ := he.store_cases
    have hw : ¬InWindow w := by
      rintro ⟨x, hx, ⟨-, a, hat, hacc⟩ | ⟨rest, ch, un, hm'⟩⟩ <;> rw [hq] at hx <;> cases hx
      · rw [hone, List.mem_singleton] at hat
        rw [hat, ha] at hacc
        cases hacc
      · rw [hm] at hm'
        cases hm'
    have hkeep : w'.store.loadAll = w.store.loadAll → w'.committed = w.committed →
        NoLag (w'.setProc { q with queue, tasks := q.tasks.set i t' }) :=
      fun hs hc => h.keep hw hor hs hc
    rcases hcases with ⟨p, savedAt, -, hs, hc, -⟩ | ⟨hs | ⟨txid, hs⟩, hc, -⟩ | ⟨p, hpc, rfl, rfl⟩
    · exact hkeep (by rw [hs]; rfl) hc
    · exact hkeep (by rw [hs]) hc
    · exact hkeep (by rw [hs]; rfl) hc
    · have hset := set_single hone hi (t.afterCommit p)
      have hdone : (t.afterCommit p).accepted = true := by
        rw [Task.afterCommit, if_neg (by rw [hk]; decide)]
        rfl
      refine fun _ hw' => absurd ⟨_, rfl, Or.inl ⟨hm, t.afterCommit p, ?_, hdone⟩⟩ hw'
      dsimp only
      rw [hset]
      exact List.mem_singleton_self _
  · exact hlate (by rw [hst]; simp)
  · exact hlate (by rw [hst]; simp)

/-- The next step of the main goroutine, when the writes of the stage succeed. -/
theorem NoLag.mainStep (h : NoLag w) (hS : StageInv sdk w) (hq : w.proc = some q) {ok : Bool}
    (hok : ok = true ∨ q.main.writesStage = false) : NoLag (w.mainStep q ok) := by
  have htrue : NoLag (w.mainStep q true) := h.mainEffect hS hq (mainStep_effect w q true)
  cases ok with
  | true => exact htrue
  | false =>
    have hws := hok.resolve_left (by simp)
    have hout := not_inWindow_of_writesStage hq hws
    rcases mainStep_false (w := w) hws with heq | heq | ⟨-, queue, err, heq⟩ <;> rw [heq]
    · exact htrue
    · exact h.keep hout rfl rfl rfl
    · exact h.keep hout rfl rfl rfl

/-- Every event but the end of a process in the window. -/
theorem NoLag.step (h : NoLag w) (hS : StageInv sdk w) {e : Event Hash} (hok : StageWritesOK w e)
    (he : NoWindowCrash w e) : NoLag (w.step sdk e) := by
  by_cases hmain : ∃ ok q, e = .main ok ∧ w.proc = some q
  · obtain ⟨ok, q, rfl, hq⟩ := hmain
    rw [step_main hq]
    exact h.mainStep hS hq (hok.imp_right fun hws => hws q hq)
  have heff := step_effect sdk w e
  generalize w.step sdk e = w' at heff
  cases heff with
  | idle => exact h
  | start o initial hw => exact h.keep (not_inWindow_of_none hw) rfl rfl rfl
  | crash => exact h.keep he rfl rfl rfl
  | cancel q hq =>
    exact fun hst hw => h hst fun hin => hw (inWindow_congr hq rfl rfl rfl hin)
  | configure u q q' hq hst hc =>
    obtain ⟨-, n, f, m, rfl⟩ := configure_ok hc
    exact fun hst hw => h hst fun hin => hw (inWindow_congr hq rfl rfl rfl hin)
  | poll utxos q hq hm =>
    exact h.keep (not_inWindow hq (by rw [hm]; simp) (by rw [hm]; simp)) rfl rfl rfl
  | main ok q w' hq => exact absurd ⟨ok, q, rfl, hq⟩ hmain
  | task i te q t t' w' queue hq hi htask => exact h.taskEffect hS hq hi htask

/-! ## The window is entered by an early commit -/

/-- The main goroutine enters the window when it commits an L1 record in the replay. -/
theorem not_inWindow_mainEffect (hS : StageInv sdk w) (hq : w.proc = some q)
    (hw : ¬InWindow w) {ok : Bool} (he : ¬CommitsEarly w (.main ok)) (heff : MainEffect w q ok w') :
    ¬InWindow w' := by
  have hp := hS.inv.proc q hq
  unfold ProcOK at hp
  cases heff with
  | wait => exact hw
  | newFails => exact not_inWindow_of_none rfl
  | replayCommit p rest changed unknown hm =>
    rw [hm] at hp
    obtain ⟨st, -, hor, hst, -⟩ :=
      hS.staged.commit hS.inv.ledger (hp.rest.mem_iff.1 List.mem_cons_self)
    refine not_inWindow rfl ?_ ?_
    · rw [hst]
      simp
    · rintro rest' ch un hm'
      rw [hst] at hm'
      injection hm' with hl1
      subst hl1
      refine he ⟨hor.elim (fun hor => ?_) And.left, q, hq, Or.inr ⟨p, rest, changed, unknown, hm, hst, rfl⟩⟩
      -- at `l1Done` no record is pending
      have hnil := hS.staged
      unfold Staged at hnil
      rw [hor] at hnil
      have hmem := hp.rest.mem_iff.1 List.mem_cons_self
      rw [hnil] at hmem
      cases hmem
  | replayUnknown | persist | persisted | replayStage | restored | restoredUnknown | waitForSeed
  | ready | pushSeed | seeded | endL1 | beginL2 | endL2 | markDone | fail | failAt =>
    exact not_inWindow rfl (by simp) (by simp)
  | lock _ st hm =>
    refine not_inWindow rfl ?_ ?_ <;>
      rcases dispatch_cases Hash st q.queue.length q.numChains q.l1Count with h | h | h | h | ⟨e, h⟩ <;>
      simp [h]
  | beginL1 _ seed rest hm =>
    rintro ⟨x, hx, ⟨-, t, ht, hacc⟩ | ⟨rest, ch, un, hm'⟩⟩ <;> cases hx
    · rw [List.mem_singleton.1 ht] at hacc
      cases hacc
    · cases hm'
  | startChain _ u rest hm => exact not_inWindow rfl (by simp [hm]) (by simp [hm])

/-- A goroutine enters it when it commits the L1 fanout. -/
theorem not_inWindow_taskEffect (hS : StageInv sdk w) (hq : w.proc = some q) {i : ℕ}
    {t t' : Task Hash} {te : TaskEvent} {queue : List UTXO} (hi : q.tasks[i]? = some t)
    (he : ¬CommitsEarly w (.task i te)) (heff : TaskEffect sdk w q t te w' queue t') :
    ¬InWindow (w'.setProc { q with queue, tasks := q.tasks.set i t' }) := by
  have htm := List.mem_of_getElem? hi
  rcases hS.kind hq htm with ⟨hm, hone, hk, hst⟩ | ⟨hm, -⟩ | ⟨hm, -⟩
  · have hna : t'.accepted = false := by
      cases heff with
      | commit p hpc => exact absurd ⟨hst, q, hq, Or.inl ⟨i, t, p, hi, hk, hpc, rfl⟩⟩ he
      | broadcast p o => cases o <;> rfl
      | save | stop | giveUp | clear | clearLast | commitFail => rfl
    rintro ⟨x, hx, ⟨-, a, ha, hacc⟩ | ⟨rest, ch, un, hm'⟩⟩ <;> cases hx
    · rw [set_single hone hi, List.mem_singleton] at ha
      rw [ha, hna] at hacc
      cases hacc
    · dsimp only at hm'
      rw [hm] at hm'
      cases hm'
  · exact not_inWindow rfl (by simp [hm]) (by simp [hm])
  · exact not_inWindow rfl (by simp [hm]) (by simp [hm])

/-- **Without an early commit the window is not entered.** -/
theorem not_inWindow_step (hS : StageInv sdk w) (hw : ¬InWindow w) {e : Event Hash}
    (he : ¬CommitsEarly w e) : ¬InWindow (w.step sdk e) := by
  have heff := step_effect sdk w e
  generalize w.step sdk e = w' at heff
  cases heff with
  | idle => exact hw
  | start => exact not_inWindow rfl (by simp [Proc.new]) (by simp [Proc.new])
  | crash => exact not_inWindow_of_none rfl
  | cancel q hq =>
    rintro ⟨x, hx, hin⟩
    cases hx
    exact hw ⟨q, hq, hin⟩
  | configure u q q' hq hst hc =>
    obtain ⟨-, n, f, m, rfl⟩ := configure_ok hc
    rintro ⟨x, hx, hin⟩
    cases hx
    exact hw ⟨q, hq, hin⟩
  | poll utxos q hq hm => exact not_inWindow rfl (by simp) (by simp)
  | main ok q w' hq hmain => exact not_inWindow_mainEffect hS hq hw he hmain
  | task i te q t t' w' queue hq hi htask => exact not_inWindow_taskEffect hS hq hi he htask

end Lag

section Runs

variable {s : Store Hash} {es : List (Event Hash)}

/-- Before anything is committed. -/
theorem NoLag.init (s : Store Hash) : NoLag (World.init s) := by
  rintro - - u - ⟨p, hp, -⟩
  cases hp

theorem noLag_run (hinj : Function.Injective sdk.txHash) (hpend : s.loadPending = [])
    (hst : s.stageOr = .none) (hdist : (s.loadAll.map sdk.outpoint).Nodup)
    (hes : Along (World.step sdk)
      (fun w e => (SourceOK sdk w e ∧ StageWritesOK w e) ∧ NoWindowCrash w e) (World.init s) es)
    (hf : Fresh sdk ((World.init s).run sdk es).imported ((World.init s).run sdk es).committed) :
    StageInv sdk ((World.init s).run sdk es) ∧ NoLag ((World.init s).run sdk es) := by
  refine Along.inv_of_later (F := fun w => Fresh sdk w.imported w.committed)
    (I := fun w => StageInv sdk w ∧ NoLag w) (fun w e => Fresh.of_grows (step_grows w e)) ?_ hes
    ⟨StageInv.init hpend hst hdist, NoLag.init s⟩ hf
  rintro w e ⟨hS, hN⟩ ⟨⟨hsrc, hok⟩, hno⟩ hf
  exact ⟨hS.stageStep hinj hsrc hok hf, hN.step hS hok hno⟩

theorem noLag_of_notEarly (hinj : Function.Injective sdk.txHash) (hpend : s.loadPending = [])
    (hst : s.stageOr = .none) (hdist : (s.loadAll.map sdk.outpoint).Nodup)
    (hes : Along (World.step sdk)
      (fun w e => (SourceOK sdk w e ∧ StageWritesOK w e) ∧ ¬CommitsEarly w e) (World.init s) es)
    (hf : Fresh sdk ((World.init s).run sdk es).imported ((World.init s).run sdk es).committed) :
    StageInv sdk ((World.init s).run sdk es) ∧ NoLag ((World.init s).run sdk es) ∧
      ¬InWindow ((World.init s).run sdk es) := by
  refine Along.inv_of_later (F := fun w => Fresh sdk w.imported w.committed)
    (I := fun w => StageInv sdk w ∧ NoLag w ∧ ¬InWindow w)
    (fun w e => Fresh.of_grows (step_grows w e)) ?_ hes
    ⟨StageInv.init hpend hst hdist, NoLag.init s, not_inWindow_of_none rfl⟩ hf
  rintro w e ⟨hS, hN, hw⟩ ⟨⟨hsrc, hok⟩, hearly⟩ hf
  -- a process that is never in the window does not end in it
  have hno : NoWindowCrash w e := by
    cases e with
    | crash => exact hw
    | _ => trivial
  exact ⟨hS.stageStep hinj hsrc hok hf, hN.step hS hok hno, not_inWindow_step hS hw hearly⟩

end Runs

/-! ## Interrupted replays -/

/-- The stage a replay of the pending records leaves. -/
def stageAfter (s : Store Hash) : Option Stage :=
  match s.loadPending with
  | [] => s.stage
  | p :: _ => p.stage

/-- The events of restarts: processes start on the store, take steps up to the end of
`New`, and end outside the window, by a crash or because a write fails. -/
def Recovers (w : World Hash) : Event Hash → Prop
  | .start _ initial => initial = [] ∨ initial = w.store.loadAll
  | .crash => ¬InWindow w
  | .main ok => (ok = true ∨ ∀ q, w.proc = some q → q.main.writesStage = false) ∧
      ∀ q, w.proc = some q → q.main.starting = true
  | _ => False

instance [DecidableEq Hash] (w : World Hash) : ∀ e, Decidable (Recovers w e)
  | .start _ initial => inferInstanceAs (Decidable (initial = [] ∨ initial = w.store.loadAll))
  | .crash => inferInstanceAs (Decidable (¬InWindow w))
  | .main ok => inferInstanceAs (Decidable
      ((ok = true ∨ ∀ q ∈ w.proc, q.main.writesStage = false) ∧ ∀ q ∈ w.proc, q.main.starting = true))
  | .cancel | .configure _ | .poll _ | .task _ _ => isFalse id

/-- The pending records of a staged store reach the same stage. -/
theorem Staged.stageAfter_eq {s : Store Hash} (h : Staged s) {p : PendingBroadcast Hash}
    (hp : p ∈ s.loadPending) : stageAfter s = p.stage := by
  have hsame : ∀ r ∈ s.loadPending, r.stage = p.stage := by
    intro r hr
    unfold Staged at h
    split at h
    · obtain ⟨-, h⟩ := h.resolve_left (List.ne_nil_of_mem hp)
      rw [h r hr, h p hp]
    · rw [h] at hp
      cases hp
    · rw [h r hr, h p hp]
    · rw [h r hr, h p hp]
    · exact h.elim
  unfold stageAfter
  split
  · rename_i hnil
    rw [hnil] at hp
    cases hp
  · rename_i r rest hcons
    exact hsame r (by rw [hcons]; exact List.mem_cons_self)

/-- The records left after a commit reach the stage of the committed one. -/
theorem Staged.stageAfter_commit {s : Store Hash} (h : Staged s) {imported : List UTXO}
    {committed : List (PendingBroadcast Hash)} (hL : Ledger sdk s imported committed)
    {p : PendingBroadcast Hash} (hp : p ∈ s.loadPending) {st : Stage} (hst : p.stage = some st) :
    stageAfter ((s.commitPending p.txID p.spent p.created).setStage st) = some st := by
  have hleft : ∀ r ∈ (s.commitPending p.txID p.spent p.created).loadPending, r.stage = some st := by
    intro r hr
    have hrp := ((Store.mem_commitPending_pending (hL.pending_txID p hp)).1 hr).2
    rw [← h.stageAfter_eq hrp, h.stageAfter_eq hp, hst]
  unfold stageAfter
  split
  · rfl
  · rename_i r rest hcons
    apply hleft r
    have hcons' : (s.commitPending p.txID p.spent p.created).loadPending = r :: rest := hcons
    rw [hcons']
    exact List.mem_cons_self

/-- A persisted stage that is written once more. -/
theorem Store.setStage_stageOr {s : Store Hash} {st : Stage} (h : s.stageOr = st) (hne : st ≠ .none) :
    s.setStage st = s := by
  obtain ⟨utxos, pending, stage⟩ := s
  cases stage with
  | none => exact absurd h.symm hne
  | some st' =>
    obtain rfl : st' = st := h
    rfl

/-- What a restart of the store `s` leads to is what it led to from the store `s₀`. -/
structure Recovering (sdk : SDK Hash) (s₀ : Store Hash) (w : World Hash) : Prop where
  stages : StageInv sdk w
  tips : tips w.store ~ tips s₀
  stage : ¬InWindow w → stageAfter w.store = stageAfter s₀
  window : ∀ q st rest changed unknown, w.proc = some q →
    q.main = .replayStage st rest changed unknown →
    stageAfter (w.store.setStage st) = stageAfter s₀
  restoring : ∀ q, w.proc = some q → (q.main.starting = true ∨ q.main = .ready) ∧
    ∀ rest, q.main = .persist rest → ∀ u ∈ rest, u ∈ w.store.loadAll

section Recovering

variable {s₀ : Store Hash} {w w' : World Hash} {q : Proc Hash}

/-- The process goes on outside the window, on the same store. -/
theorem Recovering.keep (h : Recovering sdk s₀ w) (hw : ¬InWindow w) {q' : Proc Hash}
    (hS' : StageInv sdk (w.setProc q'))
    (hno : ∀ st rest changed unknown, q'.main ≠ .replayStage st rest changed unknown)
    (hstart : q'.main.starting = true ∨ q'.main = .ready)
    (hrest : ∀ rest, q'.main = .persist rest → ∀ u ∈ rest, u ∈ w.store.loadAll) :
    Recovering sdk s₀ (w.setProc q') := by
  refine ⟨hS', h.tips, fun _ => h.stage hw, ?_, ?_⟩
  · rintro x st rest ch un ⟨⟩ hm
    exact absurd hm (hno st rest ch un)
  · rintro x ⟨⟩
    exact ⟨hstart, hrest⟩

/-- The replay commits a record: the window, or the stage of the record is persisted
already. -/
theorem Recovering.replayCommit (h : Recovering sdk s₀ w) (hinj : Function.Injective sdk.txHash)
    (hw : ¬InWindow w) {p : PendingBroadcast Hash} (hpm : p ∈ w.store.loadPending) {st : Stage}
    (hne : st ≠ .none) (hor : w.store.stageOr = st ∨ w.store.stageOr = .none ∧ st = .l1Done)
    (hst : p.stage = some st) {q' : Proc Hash} {rest : List (PendingBroadcast Hash)} {changed : Bool}
    {unknown : ℕ} (hm : q'.main = .replayStage st rest changed unknown)
    (hS' : StageInv sdk ({ w.commit p with replayed := w.replayed ++ [p] }.setProc q'))
    (hf : Fresh sdk (w.commit p).imported (w.commit p).committed) :
    Recovering sdk s₀ ({ w.commit p with replayed := w.replayed ++ [p] }.setProc q') := by
  have hL := h.stages.inv.ledger
  have hbefore : stageAfter s₀ = some st := by
    rw [← h.stage hw, ← hst]
    exact h.stages.staged.stageAfter_eq hpm
  have hafter := h.stages.staged.stageAfter_commit hL hpm hst
  refine ⟨hS', (tips_commit hL hinj hf hpm).trans h.tips, fun hw' => ?_, ?_, ?_⟩
  · rcases hor with hor | ⟨-, rfl⟩
    · have hsame : (w.store.commitPending p.txID p.spent p.created).setStage st =
          w.store.commitPending p.txID p.spent p.created := Store.setStage_stageOr hor hne
      rw [hsame] at hafter
      exact hafter.trans hbefore.symm
    · exact absurd ⟨q', rfl, Or.inr ⟨rest, changed, unknown, hm⟩⟩ hw'
  · rintro x st₁ rest₁ ch₁ un₁ ⟨⟩ hm₁
    obtain ⟨rfl, -⟩ := Main.replayStage.inj (hm.symm.trans hm₁)
    exact hafter.trans hbefore.symm
  · rintro x ⟨⟩
    exact ⟨Or.inl (by rw [hm]; rfl), by simp [hm]⟩

/-- A step of the main goroutine within `New`. -/
theorem Recovering.mainEffect (h : Recovering sdk s₀ w) (hinj : Function.Injective sdk.txHash)
    (hq : w.proc = some q) (hstart : q.main.starting = true) (he : MainEffect w q true w')
    (hS' : StageInv sdk w') (hf : Fresh sdk w'.imported w'.committed) :
    Recovering sdk s₀ w' := by
  have hp := h.stages.inv.proc q hq
  unfold ProcOK at hp
  cases he with
  | wait => exact h
  | persist u rest hm =>
    have hin := (h.restoring q hq).2 _ hm
    have himp := importUTXO_of_mem (hin u List.mem_cons_self)
    rw [himp] at hS' ⊢
    refine h.keep (not_inWindow hq (by simp [hm]) (by simp [hm])) hS' (by simp) (Or.inl rfl) ?_
    rintro rest' ⟨⟩ v hv
    exact hin v (List.mem_cons_of_mem _ hv)
  | persisted _ hm | replayUnknown _ _ _ _ _ hm =>
    exact h.keep (not_inWindow hq (by simp [hm]) (by simp [hm])) hS' (by simp) (Or.inl rfl) (by simp)
  | replayCommit p rest changed unknown hm =>
    rw [hm] at hp
    have hpm : p ∈ w.store.loadPending := hp.rest.mem_iff.1 List.mem_cons_self
    obtain ⟨st, hne, hor, hst, -⟩ := h.stages.staged.commit h.stages.inv.ledger hpm
    rw [hst] at hS' ⊢
    have hout := not_inWindow hq (by simp [hm]) (by simp [hm])
    exact h.replayCommit hinj hout hpm hne hor hst rfl hS' hf
  | replayStage _ st rest changed unknown hm =>
    refine ⟨hS', h.tips, fun _ => h.window q st rest changed unknown hq hm, ?_, ?_⟩
    · rintro x st₁ rest₁ ch₁ un₁ ⟨⟩ ⟨⟩
    · rintro x ⟨⟩
      exact ⟨Or.inl rfl, (by simp)⟩
  | restored _ changed hm =>
    exact h.keep (not_inWindow hq (by simp [hm]) (by simp [hm])) hS' (by simp) (Or.inr rfl) (by simp)
  | restoredUnknown _ changed unknown hm hu =>
    rw [hm] at hp
    exact absurd hp.unknown hu
  | waitForSeed _ hm | ready _ hm | pushSeed _ _ hm | seeded _ hm | lock _ _ hm | beginL1 _ _ _ hm
  | endL1 _ _ _ hm | beginL2 _ hm | endL2 _ hm | markDone _ hm | startChain _ _ _ hm =>
    rw [hm] at hstart
    cases hstart
  | fail _ _ _ hst =>
    rw [hst] at hstart
    cases hstart
  | failAt _ _ _ _ hm =>
    rcases hm with ⟨hm, -⟩ | ⟨hm | hm, -⟩ <;> rw [hm] at hstart <;> cases hstart

/-- The process ends outside the window. -/
theorem Recovering.exit (h : Recovering sdk s₀ w) (hw : ¬InWindow w) (hS' : StageInv sdk w.exit) :
    Recovering sdk s₀ w.exit :=
  ⟨hS', h.tips, fun _ => h.stage hw, by rintro x st rest ch un ⟨⟩, by rintro x ⟨⟩⟩

/-- A step of `New` whose write succeeds, or fails and is none of the stage. -/
theorem Recovering.mainStep (h : Recovering sdk s₀ w) (hinj : Function.Injective sdk.txHash)
    (hq : w.proc = some q) (hstart : q.main.starting = true) {ok : Bool}
    (hok : ok = true ∨ q.main.writesStage = false) (hS' : StageInv sdk (w.mainStep q ok))
    (hf : Fresh sdk (w.mainStep q ok).imported (w.mainStep q ok).committed) :
    Recovering sdk s₀ (w.mainStep q ok) := by
  cases ok with
  | true => exact h.mainEffect hinj hq hstart (mainStep_effect w q true) hS' hf
  | false =>
    have hws := hok.resolve_left (by simp)
    rcases mainStep_false (w := w) hws with heq | heq | ⟨hnew, -⟩
    · rw [heq] at hS' hf ⊢
      exact h.mainEffect hinj hq hstart (mainStep_effect w q true) hS' hf
    · rw [heq] at hS' ⊢
      exact h.exit (not_inWindow_of_writesStage hq hws) hS'
    · rw [hnew] at hstart
      cases hstart

/-- **A restart, interrupted or not, leads to the same store.** -/
theorem Recovering.step (h : Recovering sdk s₀ w) (hinj : Function.Injective sdk.txHash)
    {e : Event Hash} (he : Recovers w e)
    (hf : Fresh sdk (w.step sdk e).imported (w.step sdk e).committed) :
    Recovering sdk s₀ (w.step sdk e) := by
  have hsrc : SourceOK sdk w e ∧ StageWritesOK w e := by
    cases e with
    | start o initial =>
      have hre : Restores o.mode w (.start o initial) := ⟨rfl, he⟩
      exact ⟨(hre.sourceOK sdk).resolve_right (by rintro ⟨us, ⟨⟩⟩), trivial⟩
    | crash => exact ⟨trivial, trivial⟩
    | main ok => exact ⟨trivial, he.1⟩
    | _ => exact he.elim
  have hS' := h.stages.stageStep hinj hsrc.1 hsrc.2 hf
  by_cases hmain : ∃ ok q, e = .main ok ∧ w.proc = some q
  · obtain ⟨ok, q, rfl, hq⟩ := hmain
    rw [step_main hq] at hf hS' ⊢
    exact h.mainStep hinj hq (he.2 q hq) (he.1.imp_right fun hws => hws q hq) hS' hf
  have heff := step_effect sdk w e
  generalize w.step sdk e = w' at heff hS' hf
  cases heff with
  | idle => exact h
  | start o initial hw hs =>
    have hre : Restores o.mode w (.start o initial) := ⟨rfl, he⟩
    refine ⟨hS', h.tips, fun _ => h.stage (not_inWindow_of_none hw),
      by rintro x st rest ch un ⟨⟩ ⟨⟩, ?_⟩
    rintro x ⟨⟩
    exact ⟨Or.inl rfl, fun rest hr => hre.persist hr⟩
  | crash => exact h.exit he hS'
  | main ok q w' hq => exact absurd ⟨ok, q, rfl, hq⟩ hmain
  | cancel | configure | poll | task => exact he.elim

theorem Recovering.run (hinj : Function.Injective sdk.txHash) (hS : StageInv sdk w)
    (hw : w.proc = none) {fs : List (Event Hash)} (hfs : Along (World.step sdk) Recovers w fs)
    (hf : Fresh sdk (w.run sdk fs).imported (w.run sdk fs).committed) :
    Recovering sdk w.store (w.run sdk fs) := by
  have hout : ∀ x, w.proc ≠ some x := fun x => by rw [hw]; simp
  have h0 : Recovering sdk w.store w :=
    ⟨hS, List.Perm.refl _, fun _ => rfl, fun x _ _ _ _ hx => absurd hx (hout x),
      fun x hx => absurd hx (hout x)⟩
  exact Along.inv_of_later (F := fun w => Fresh sdk w.imported w.committed)
    (I := Recovering sdk w.store) (fun w e => Fresh.of_grows (step_grows w e))
    (fun _ _ h he hf => h.step hinj he hf) hfs h0 hf

/-- The store at the end of `New`. -/
theorem Recovering.store_eq (h : Recovering sdk s₀ w) (hq : w.proc = some q) (hm : q.main = .ready) :
    w.store.loadPending = [] ∧ w.store.loadAll ~ TxGen.tips s₀ ∧ w.store.stage = stageAfter s₀ := by
  have hp := h.stages.inv.proc q hq
  unfold ProcOK at hp
  rw [hm] at hp
  have hst := h.stage (not_inWindow hq (by rw [hm]; simp) (by rw [hm]; simp))
  unfold stageAfter at hst
  rw [hp.pending] at hst
  exact ⟨hp.pending, tips_of_no_pending hp.pending ▸ h.tips, hst⟩

end Recovering

/-- **The persisted stage does not lag.** In a run in which no record of an L1 fanout is
committed at stage `none`, that stage means in every state that no stored UTXO is the
output of a fanout. In a run in which no process ends between such a commit and the
write of the stage, it means so in every file that a start finds; and from such a file
two restarts up to the end of `New`, each interrupted any number of times outside the
window, leave the same store. -/
theorem stage_never_lags (hinj : Function.Injective sdk.txHash) {s : Store Hash}
    (hpend : s.loadPending = []) (hst : s.stageOr = .none)
    (hdist : (s.loadAll.map sdk.outpoint).Nodup) {es : List (Event Hash)}
    (hes : Along (World.step sdk) (fun w e => SourceOK sdk w e ∧ StageWritesOK w e)
      (World.init s) es) {w : World Hash} (hw : w = (World.init s).run sdk es)
    (hf : Fresh sdk w.imported w.committed) :
    (Along (World.step sdk) (fun w e => ¬CommitsEarly w e) (World.init s) es →
      w.store.stageOr = .none → ∀ u ∈ w.store.loadAll, ¬FanoutOutput w u) ∧
    (Along (World.step sdk) NoWindowCrash (World.init s) es → w.proc = none →
      (w.store.stageOr = .none → ∀ u ∈ w.store.loadAll, ¬FanoutOutput w u) ∧
      ∀ fs fs' : List (Event Hash), ∀ q q' : Proc Hash,
        Along (World.step sdk) Recovers w fs → Along (World.step sdk) Recovers w fs' →
        Fresh sdk (w.run sdk fs).imported (w.run sdk fs).committed →
        Fresh sdk (w.run sdk fs').imported (w.run sdk fs').committed →
        (w.run sdk fs).proc = some q → q.main = .ready →
        (w.run sdk fs').proc = some q' → q'.main = .ready →
        (w.run sdk fs).store = (w.run sdk fs').store) := by
  subst hw
  refine ⟨fun hearly hnone => ?_, fun hcrash hproc => ⟨fun hnone => ?_, ?_⟩⟩
  · obtain ⟨-, hlag, hout⟩ := noLag_of_notEarly hinj hpend hst hdist (hes.and hearly) hf
    exact hlag hnone hout
  · exact (noLag_run hinj hpend hst hdist (hes.and hcrash) hf).2 hnone (not_inWindow_of_none hproc)
  · intro fs fs' q q' hfs hfs' hff hff' hq hm hq' hm'
    have hS := (noLag_run hinj hpend hst hdist (hes.and hcrash) hf).1
    obtain ⟨h1, h2, h3⟩ := (Recovering.run hinj hS hproc hfs hff).store_eq hq hm
    obtain ⟨h1', h2', h3'⟩ := (Recovering.run hinj hS hproc hfs' hff').store_eq hq' hm'
    exact Store.ext_mem (h2.trans h2'.symm) (by rw [h1, h1']) (by rw [h3, h3'])

open Concrete

/-- A crash while the L1 fanout is pending. -/
def Concrete.pendingL1 : List (Event Bytes) :=
  startup (options 7 4 2) 5 ++ [.task 0 (.save true 1), .crash]

/-- A replay that ends right after the commit. -/
def Concrete.cutReplay : List (Event Bytes) := startup (options 7 4 2) 2 ++ [.crash]

/-- The world after `pendingL1` and further events. -/
def Concrete.afterPendingL1 (fs : List (Event Bytes)) : World Bytes :=
  ((World.init (funded 100000)).run plainSDK pendingL1).run plainSDK fs

/-- The replay that is cut after the commit leaves the L1 outputs at stage `none`, and
the next replay does not write the stage that an uninterrupted one writes. -/
theorem cut_replay_lags :
    (afterPendingL1 cutReplay).proc.isNone = true ∧
    (afterPendingL1 cutReplay).store.stage = some .none ∧
    (∃ u ∈ (afterPendingL1 cutReplay).store.loadAll, FanoutOutput (afterPendingL1 cutReplay) u) ∧
    (afterPendingL1 (cutReplay ++ startup (options 7 4 2) 2)).proc.any
      (fun q => decide (q.main = .ready)) = true ∧
    (afterPendingL1 (cutReplay ++ startup (options 7 4 2) 2)).store.stage = some .none ∧
    (afterPendingL1 (startup (options 7 4 2) 4)).proc.any (fun q => decide (q.main = .ready)) = true ∧
    (afterPendingL1 (startup (options 7 4 2) 4)).store.stage = some .l1Done := by
  decide +kernel

theorem pending_replay_resumed :
    (afterPendingL1 (startup (options 7 4 2) 1 ++ [.crash] ++ startup (options 7 4 2) 4)).store =
      (afterPendingL1 (startup (options 7 4 2) 4)).store := by
  have hfst : (afterPendingL1 (startup (options 7 4 2) 1 ++ [.crash] ++
      startup (options 7 4 2) 4)).proc.any (fun q => decide (q.main = .ready)) = true := by
    decide +kernel
  have hsnd : (afterPendingL1 (startup (options 7 4 2) 4)).proc.any
      (fun q => decide (q.main = .ready)) = true := by
    decide +kernel
  obtain ⟨q, hq, hm⟩ := (Option.any_eq_true _ _).1 hfst
  obtain ⟨q', hq', hm'⟩ := (Option.any_eq_true _ _).1 hsnd
  have hnone : ((World.init (funded 100000)).run plainSDK pendingL1).proc.isNone = true := by
    decide +kernel
  have hinj : Function.Injective plainSDK.txHash := encTx_injective
  have hes : Along (World.step plainSDK) (fun w e => SourceOK plainSDK w e ∧ StageWritesOK w e)
      (World.init (funded 100000)) pendingL1 := by
    decide +kernel
  have h := stage_never_lags hinj (by decide +kernel) rfl (by decide +kernel) hes rfl
    (by decide +kernel)
  exact (h.2 (by decide +kernel) (Option.isNone_iff_eq_none.1 hnone)).2 _ _ q q' (by decide +kernel)
    (by decide +kernel) (by decide +kernel) (by decide +kernel) hq (of_decide_eq_true hm) hq'
    (of_decide_eq_true hm')

end TxGen
