import TxGen.Proof.Concrete
import TxGen.Proof.Replay

/-!
# The sustain phase

Runs from a store at stage `l2Done`: every process that is started on it restores
its chains and goes on with them, so every goroutine is a chain and every
transaction handed to `Broadcast` is the sustain hop of a known output under the
one mode. Known outputs are determined by their outpoint, so no outpoint is spent
by two transactions.
-/

namespace TxGen

open Lib
open scoped List

variable {Hash : Type} {sdk : SDK Hash} {mode : Mode Hash}

/-- The process is restoring, or it resumes or runs chains. -/
def SustainPhase (mode : Mode Hash) (q : Proc Hash) : Prop :=
  q.mode = mode ∧
    match q.main with
    | .persist _ | .replay .. => True
    | .replayStage st _ _ _ => st = .l2Done
    | .ready => q.stage = .l2Done
    | .lock st => st = .l2Done ∧ q.stage = .l2Done
    | .chains => q.stage = .l2Done
    | _ => False

/-- The record `p` is that of a sustain hop. -/
def IsHop (sdk : SDK Hash) (mode : Mode Hash) (p : PendingBroadcast Hash) : Prop :=
  ∃ u p₀ savedAt, sustainPending sdk u mode = .ok p₀ ∧ p = { p₀ with savedAt }

theorem IsHop.stage {p : PendingBroadcast Hash} (h : IsHop sdk mode p) : p.stage = some .l2Done := by
  obtain ⟨u, p₀, savedAt, hb, rfl⟩ := h
  exact (sustainPending_ok hb).2.1

theorem IsHop.created {p : PendingBroadcast Hash} (h : IsHop sdk mode p) :
    ∃ next, p.created = [next] := by
  obtain ⟨u, p₀, savedAt, hb, rfl⟩ := h
  obtain ⟨next, hn, -⟩ := (sustainPending_ok hb).2.2
  exact ⟨next, hn⟩

/-- The invariant of the sustain phase. -/
structure SustainInv (sdk : SDK Hash) (mode : Mode Hash) (w : World Hash) : Prop where
  inv : Inv sdk w
  stage : w.store.stage = some .l2Done
  pending : ∀ p ∈ w.store.loadPending, IsHop sdk mode p
  proc : ∀ q, w.proc = some q → SustainPhase mode q
  persist : ∀ q rest, w.proc = some q → q.main = .persist rest → ∀ u ∈ rest, u ∈ w.store.loadAll
  sent : ∀ a ∈ w.sent, ∃ u ∈ known w.imported w.committed, sustainPending sdk u mode = .ok a.2

/-- In the sustain phase a goroutine is a chain. -/
theorem SustainInv.chain {w : World Hash} (h : SustainInv sdk mode w) {q : Proc Hash}
    (hq : w.proc = some q) {t : Task Hash} (ht : t ∈ q.tasks) : t.kind = .sustain := by
  obtain ⟨i, hi⟩ := List.mem_iff_getElem?.1 ht
  have hne : q.tasks ≠ [] := List.ne_nil_of_mem ht
  have hp := h.inv.proc q hq
  have hphase := (h.proc q hq).2
  unfold ProcOK at hp
  split at hp
  case h_1 => exact absurd hp.1 hne
  case h_2 | h_3 | h_4 | h_7 => exact absurd hp.tasks hne
  case h_5 | h_6 | h_8 | h_9 | h_10 => exact absurd hp.1.tasks hne
  case h_11 hm | h_12 hm => rw [hm] at hphase; exact hphase.elim
  case h_13 => exact (hp.2.2 t ht).1
  case h_14 => exact absurd hp hne

/-- In the sustain phase the parameters cannot be changed. -/
theorem SustainInv.configure {w : World Hash} (h : SustainInv sdk mode w) (u : BootstrapUpdate) :
    w.step sdk (.configure u) = w := by
  unfold World.step
  split <;> try rfl
  case h_4 u' q he hq =>
    cases he
    split_ifs with hst
    · rfl
    · split
      · rfl
      · rename_i q' hc
        obtain ⟨hf, -⟩ := configure_ok hc
        have hphase := (h.proc q hq).2
        have hstage : q.stage = .l2Done := by
          unfold Main.starting at hst
          split at hphase <;> simp_all
        simp [Proc.funded, hstage] at hf
  all_goals simp_all

/-- In the sustain phase the UTXO source is not polled. -/
theorem SustainInv.poll {w : World Hash} (h : SustainInv sdk mode w) (us : List UTXO) :
    w.step sdk (.poll us) = w := by
  unfold World.step
  split <;> try rfl
  case h_5 us' q he hq =>
    split
    · rename_i hm
      have hphase := (h.proc q hq).2
      rw [hm] at hphase
      exact hphase.elim
    · rfl
  all_goals simp_all

/-- A step of the main goroutine stays in the sustain phase. -/
theorem SustainInv.mainStep {w : World Hash} (h : SustainInv sdk mode w) {q : Proc Hash}
    (hq : w.proc = some q) (ok : Bool) :
    (w.mainStep q ok).store.stage = some .l2Done ∧
      (∀ q', (w.mainStep q ok).proc = some q' → SustainPhase mode q') ∧
      ∀ q' rest, (w.mainStep q ok).proc = some q' → q'.main = .persist rest →
        ∀ u ∈ rest, u ∈ (w.mainStep q ok).store.loadAll := by
  have hst := h.stage
  have hp := h.inv.proc q hq
  obtain ⟨hmode, hphase⟩ := h.proc q hq
  have hwrite : (w.writeStage ok .l2Done).store.stage = some .l2Done := by
    cases ok with
    | false => exact hst
    | true => rfl
  unfold ProcOK at hp
  unfold World.mainStep
  split at hphase
  case h_1 rest hm =>
    rw [hm]
    cases rest with
    | nil => exact ⟨hst, by rintro q' ⟨⟩; exact ⟨hmode, trivial⟩, by rintro q' rest ⟨⟩ ⟨⟩⟩
    | cons u rest =>
      have hin := h.persist q (u :: rest) hq hm
      dsimp only
      split_ifs
      · refine ⟨hst, by rintro q' ⟨⟩; exact ⟨hmode, trivial⟩, ?_⟩
        rintro q' rest' ⟨⟩ ⟨⟩ v hv
        rw [importUTXO_of_mem (hin u List.mem_cons_self)]
        exact hin v (List.mem_cons_of_mem _ hv)
      · exact ⟨hst, by rintro q' ⟨⟩, by rintro q' rest ⟨⟩⟩
  case h_2 rest changed unknown hm =>
    rw [hm] at hp ⊢
    cases rest with
    | nil =>
      dsimp only
      rw [if_pos hp.unknown]
      refine ⟨hst, ?_, by rintro q' rest ⟨⟩ ⟨⟩⟩
      rintro q' ⟨⟩
      refine ⟨hmode, ?_⟩
      show w.store.stage.getD q.stage = .l2Done
      rw [hst]
      rfl
    | cons p rest =>
      have hpm : p ∈ w.store.loadPending := hp.rest.mem_iff.1 List.mem_cons_self
      dsimp only
      split_ifs
      · exact ⟨hst, by rintro q' ⟨⟩; exact ⟨hmode, trivial⟩, by rintro q' rest ⟨⟩ ⟨⟩⟩
      · rw [(h.pending p hpm).stage]
        exact ⟨hst, by rintro q' ⟨⟩; exact ⟨hmode, rfl⟩, by rintro q' rest ⟨⟩ ⟨⟩⟩
      · exact ⟨hst, by rintro q' ⟨⟩, by rintro q' rest ⟨⟩⟩
  case h_3 st rest changed unknown hm =>
    rw [hm]
    subst hphase
    exact ⟨hwrite, by rintro q' ⟨⟩; exact ⟨hmode, trivial⟩, by rintro q' rest ⟨⟩ ⟨⟩⟩
  case h_4 hm =>
    rw [hm]
    dsimp only
    rw [if_neg (by rw [hphase]; simp)]
    exact ⟨hst, by rintro q' ⟨⟩; exact ⟨hmode, hphase, hphase⟩, by rintro q' rest ⟨⟩ ⟨⟩⟩
  case h_5 st hm =>
    rw [hm]
    obtain ⟨rfl, hstage⟩ := hphase
    exact ⟨hst, by rintro q' ⟨⟩; exact ⟨hmode, hstage⟩, by rintro q' rest ⟨⟩ ⟨⟩⟩
  case h_6 hm =>
    rw [hm]
    dsimp only
    split
    · exact ⟨hst, h.proc, h.persist⟩
    · exact ⟨hst, by rintro q' ⟨⟩; exact ⟨hmode, hphase⟩, by rintro q' rest ⟨⟩ ⟨⟩⟩
  case h_7 => exact hphase.elim

/-- A step of a chain stays in the sustain phase; what it hands to `Broadcast` is
the sustain hop of its tip. -/
theorem SustainInv.taskEffect {w w' : World Hash} (h : SustainInv sdk mode w) {q : Proc Hash}
    (hq : w.proc = some q) {i : ℕ} {t t' : Task Hash} (hi : q.tasks[i]? = some t) {e : TaskEvent}
    {queue : List UTXO} (heff : TaskEffect sdk w q t e w' queue t') :
    w'.store.stage = some .l2Done ∧ (∀ p ∈ w'.store.loadPending, IsHop sdk mode p) ∧
      ∀ a ∈ w'.sent, ∃ u ∈ known w'.imported w'.committed, sustainPending sdk u mode = .ok a.2 := by
  have htm := List.mem_of_getElem? hi
  have hk := h.chain hq htm
  have hmode := (h.proc q hq).1
  have hC := (h.inv.proc q hq).custody hi
  have hbuild : t.build sdk q.mode = sustainPending sdk t.utxo mode := by
    rw [Task.build, hk, hmode]
  have hsent : ∀ a ∈ w.sent, ∃ u ∈ known w'.imported w'.committed,
      sustainPending sdk u mode = .ok a.2 := by
    intro a ha
    obtain ⟨u, hu, hb⟩ := h.sent a ha
    exact ⟨u, known_of_grows (Grows.taskEffect heff) hu, hb⟩
  cases heff with
  | save p savedAt hpc hb hid =>
    refine ⟨h.stage, fun r hr => ?_, hsent⟩
    rcases Store.mem_savePending.1 hr with rfl | ⟨-, hr⟩
    · exact ⟨t.utxo, p, savedAt, hbuild ▸ hb, rfl⟩
    · exact h.pending r hr
  | stop | giveUp | commitFail => exact ⟨h.stage, h.pending, hsent⟩
  | broadcast p o hpc =>
    refine ⟨h.stage, h.pending, fun a ha => ?_⟩
    rcases List.mem_append.1 ha with ha | ha
    · exact hsent a ha
    · rw [List.mem_singleton.1 ha]
      have hrec : t.record = some p := by rw [Task.record, hpc]
      have hu := hC.durable t htm (Task.accepted_of_record hrec)
      exact ⟨t.utxo, h.inv.ledger.known_of_stored hu, hbuild ▸ (hC.records t htm p hrec).1⟩
  | clear p ok | clearLast p ok =>
    cases ok with
    | true => exact ⟨h.stage, fun r hr => h.pending r (Store.mem_clearPending.1 hr).2, hsent⟩
    | false => exact ⟨h.stage, h.pending, hsent⟩
  | commit p hpc =>
    have hrec : t.record = some p := by rw [Task.record, hpc]
    have hid := (hC.records t htm p hrec).2
    exact ⟨h.stage, fun r hr => h.pending r ((Store.mem_commitPending_pending hid).1 hr).2, hsent⟩

/-- **Every step stays in the sustain phase.** -/
theorem SustainInv.step {w : World Hash} (h : SustainInv sdk mode w)
    (hinj : Function.Injective sdk.txHash) {e : Event Hash} (he : Restores mode w e)
    (hf : Fresh sdk (w.step sdk e).imported (w.step sdk e).committed) :
    SustainInv sdk mode (w.step sdk e) := by
  rcases he.sourceOK sdk with hsrc | ⟨us, rfl⟩
  swap
  · rw [h.poll]
    exact h
  have hinv := step_inv h.inv hinj hsrc hf
  -- a step that hands nothing to `Broadcast`
  have hquiet : (w.step sdk e).sent = w.sent → (w.step sdk e).store.stage = some .l2Done →
      (∀ p ∈ (w.step sdk e).store.loadPending, p ∈ w.store.loadPending) →
      (∀ q, (w.step sdk e).proc = some q → SustainPhase mode q) →
      (∀ q rest, (w.step sdk e).proc = some q → q.main = .persist rest →
        ∀ u ∈ rest, u ∈ (w.step sdk e).store.loadAll) →
      SustainInv sdk mode (w.step sdk e) := by
    intro hs hst hpend hproc hper
    refine ⟨hinv, hst, fun p hp => h.pending p (hpend p hp), hproc, hper, fun a ha => ?_⟩
    obtain ⟨u, hu, hb⟩ := h.sent a (hs ▸ ha)
    exact ⟨u, known_of_grows (step_grows w e) hu, hb⟩
  cases hproc : w.proc with
  | none =>
    cases e with
    | start o initial =>
      rw [step_start hproc] at hquiet ⊢
      split_ifs at hquiet ⊢
      · refine hquiet rfl h.stage (fun _ hp => hp) (by rintro q ⟨⟩; exact ⟨he.1, trivial⟩) ?_
        rintro q rest ⟨⟩ hr u hu
        exact he.persist hr u hu
      · exact h
    | _ =>
      rw [step_none hproc (by simp)]
      exact h
  | some q =>
    cases e with
    | start o initial =>
      rw [step_start_some hproc]
      exact h
    | crash =>
      rw [step_crash hproc] at hquiet ⊢
      exact hquiet rfl h.stage (fun _ hp => hp) (by rintro q' ⟨⟩) (by rintro q' rest ⟨⟩)
    | cancel =>
      rw [step_cancel hproc] at hquiet ⊢
      refine hquiet rfl h.stage (fun _ hp => hp) (by rintro q' ⟨⟩; exact h.proc q hproc) ?_
      rintro q' rest ⟨⟩ hm
      exact h.persist q rest hproc hm
    | configure u =>
      rw [h.configure]
      exact h
    | poll us =>
      rw [h.poll]
      exact h
    | main ok =>
      have hmain := h.mainStep hproc ok
      have hp := h.inv.proc q hproc
      rw [step_main hproc] at hquiet ⊢
      refine hquiet ?_ hmain.1 ?_ hmain.2.1 hmain.2.2
      · rcases (mainStep_effect w q ok).history with hc | ⟨u, rest, q', -, hc⟩ | ⟨p, rest, ch, un, q', -, -, hc⟩
        · exact hc.sent
        · rw [hc]; rfl
        · rw [hc]; rfl
      · rcases (mainStep_effect w q ok).history with hc | ⟨u, rest, q', -, hc⟩ | ⟨p, rest, ch, un, q', hm, -, hc⟩
        · rcases hc.store with hs | ⟨st, hs⟩ <;> rw [hs] <;> exact fun _ hp => hp
        · rw [hc]
          exact fun _ hp => hp
        · rw [hc]
          unfold ProcOK at hp
          rw [hm] at hp
          have hpm : p ∈ w.store.loadPending := hp.rest.mem_iff.1 List.mem_cons_self
          exact fun r hr =>
            ((Store.mem_commitPending_pending (h.inv.ledger.pending_txID p hpm)).1 hr).2
    | task i e =>
      rw [step_task hproc] at hinv ⊢
      rcases taskStep_effect sdk w q i e with hs | ⟨t, w', queue, t', hi, heff, hs⟩
      · rw [hs]
        exact h
      · rw [hs] at hinv ⊢
        obtain ⟨hst, hpend, hsent⟩ := h.taskEffect hproc hi heff
        refine ⟨hinv, hst, hpend, by rintro q' ⟨⟩; exact h.proc q hproc, ?_, hsent⟩
        -- `New` runs no task, so the point of the main goroutine is another one
        rintro q' rest ⟨⟩ hm
        have hp := h.inv.proc q hproc
        unfold ProcOK at hp
        have hm' : q.main = .persist rest := hm
        rw [hm'] at hp
        rw [hp.1] at hi
        simp at hi

/-- The start of a sustain phase. -/
theorem SustainInv.init {s : Store Hash} (hstage : s.stage = some .l2Done)
    (hpend : s.loadPending = []) (hdist : (s.loadAll.map sdk.outpoint).Nodup) :
    SustainInv sdk mode (World.init s) where
  inv := init_inv hpend hdist
  stage := hstage
  pending p hp := by
    have hp' : p ∈ s.loadPending := hp
    rw [hpend] at hp'
    cases hp'
  proc q hq := by cases hq
  persist q rest hq := by cases hq
  sent a ha := by cases ha

/-- **Every run stays in the sustain phase.** -/
theorem SustainInv.run (hinj : Function.Injective sdk.txHash) {w : World Hash}
    (h : SustainInv sdk mode w) {es : List (Event Hash)}
    (hes : Along (World.step sdk) (Restores mode) w es)
    (hf : Fresh sdk (w.run sdk es).imported (w.run sdk es).committed) :
    SustainInv sdk mode (w.run sdk es) :=
  Along.inv_of_later (F := fun w => Fresh sdk w.imported w.committed) (I := SustainInv sdk mode)
    (fun w e => Fresh.of_grows (step_grows w e)) (fun _ _ h he hf => h.step hinj he hf) hes h hf

/-- **No double spend in the sustain phase.** Two transactions handed to `Broadcast`,
in whatever lifetimes, that spend a common outpoint are the same. -/
theorem sustain_no_double_spend (hinj : Function.Injective sdk.txHash) {s : Store Hash}
    (hstage : s.stage = some .l2Done) (hpend : s.loadPending = [])
    (hdist : (s.loadAll.map sdk.outpoint).Nodup) {es : List (Event Hash)}
    (hes : Along (World.step sdk) (Restores mode) (World.init s) es)
    (hf : Fresh sdk ((World.init s).run sdk es).imported ((World.init s).run sdk es).committed)
    {a b : ℕ × PendingBroadcast Hash} (ha : a ∈ ((World.init s).run sdk es).sent)
    (hb : b ∈ ((World.init s).run sdk es).sent) {ra rb : RawTx Hash}
    (hra : a.2.ef.map EF.raw = some ra) (hrb : b.2.ef.map EF.raw = some rb)
    {i j : TxInput Hash} (hi : i ∈ ra.inputs) (hj : j ∈ rb.inputs) (hij : i.outpoint = j.outpoint) :
    a.2 = b.2 := by
  have h0 : SustainInv sdk mode (World.init s) := SustainInv.init hstage hpend hdist
  have h := h0.run hinj hes hf
  obtain ⟨u, hu, hba⟩ := h.sent a ha
  obtain ⟨v, hv, hbb⟩ := h.sent b hb
  obtain ⟨raw, hbu⟩ := (sustainPending_ok hba).1
  obtain ⟨raw', hbv⟩ := (sustainPending_ok hbb).1
  have hra' : raw = ra := Option.some.inj (hbu.ef.symm.trans hra)
  have hrb' : raw' = rb := Option.some.inj (hbv.ef.symm.trans hrb)
  have hua : sdk.outpoint u = sdk.outpoint v := by
    rw [hbu.spends.outpoint_of_input (hra' ▸ hi), hbv.spends.outpoint_of_input (hrb' ▸ hj), hij]
  rw [h.inv.ledger.known_inj hinj hf hu hv hua, hbb] at hba
  exact (Except.ok.inj hba).symm

/-- A broadcast that the network accepts and that is reported as failed; its record
is cleared, the process crashes, and the next one sends the transaction again. -/
def Concrete.resend : List (Event Bytes) :=
  startup (options 7 2 1) 6 ++
    [.task 0 (.save true 1), .task 0 (.broadcast .lost), .task 0 (.clear true), .crash] ++
    startup (options 7 2 1) 6 ++
    [.task 0 (.save true 2), .task 0 (.broadcast .accepted), .task 0 (.commit true)]

open Concrete in
theorem sustain_resend_same_tx :
    ∃ a b, ((World.init twoChains).run plainSDK resend).sent = [a, b] ∧ a.1 ≠ b.1 ∧ a.2 = b.2 := by
  have hsent : ((World.init twoChains).run plainSDK resend).sent =
      [(1, hop 7 (funding 0 10)), (2, hop 7 (funding 0 10))] := by decide +kernel
  have hes : Along (World.step plainSDK) (Restores (tagMode 7)) (World.init twoChains) resend :=
    Along.of_forall (by simp [resend, startup, Restores, options])
  have hraw : (hop 7 (funding 0 10)).ef.map EF.raw =
      some ⟨[⟨[102], 0, [81]⟩], [⟨3, (tagMode 7).lockScript⟩]⟩ := by decide +kernel
  refine ⟨_, _, hsent, by decide, ?_⟩
  exact sustain_no_double_spend encTx_injective rfl rfl (by decide +kernel) hes (by decide +kernel)
    (by rw [hsent]; simp) (by rw [hsent]; simp) hraw hraw List.mem_cons_self List.mem_cons_self rfl

/-! ## Restarts -/

/-- What a restart makes of the tip `u` of a chain: the output of the transaction
the chain had pending, nothing when that is worth 0, and `u` when none is pending. -/
def resume (s : Store Hash) (u : UTXO) : Option UTXO :=
  match s.loadPending.find? fun p => u ∈ p.spent with
  | some p => p.created.head?.filter (·.value ≠ 0)
  | none => some u

/-- The tips of the chains of a process: the UTXOs still in the queue and those of
the chains started and not exhausted. -/
def Proc.chainTips (q : Proc Hash) : List UTXO := q.queue ++ q.tasks.flatMap Task.holds

/-- Everything but a step of a spending goroutine. -/
def NoTask : Event Hash → Prop
  | .task _ _ => False
  | _ => True

theorem SustainInv.resumed_eq {w : World Hash} (h : SustainInv sdk mode w) (u : UTXO) :
    resumed w.store u = (resume w.store u).toList := by
  unfold resumed resume
  cases hf : w.store.loadPending.find? fun p => u ∈ p.spent with
  | none => rfl
  | some p =>
    obtain ⟨next, hn⟩ := (h.pending p (List.mem_of_find?_eq_some hf)).created
    by_cases h0 : next.value = 0 <;> simp [hn, h0, Option.filter]

/-- A restart, or a step of it, neither loses nor duplicates a tip. -/
theorem SustainInv.restartStep {w : World Hash} (h : SustainInv sdk mode w)
    (hinj : Function.Injective sdk.txHash)
    (hf : Fresh sdk w.imported (w.committed ++ w.store.loadPending)) {e : Event Hash}
    (he : Restores mode w e) (hnt : NoTask e) :
    Fresh sdk (w.step sdk e).imported ((w.step sdk e).committed ++ (w.step sdk e).store.loadPending) ∧
      tips (w.step sdk e).store ~ tips w.store := by
  cases hproc : w.proc with
  | none =>
    cases e with
    | start o initial =>
      rw [step_start hproc]
      split_ifs <;> exact ⟨hf, List.Perm.refl _⟩
    | _ =>
      rw [step_none hproc (by simp)]
      exact ⟨hf, List.Perm.refl _⟩
  | some q =>
    cases e with
    | start o initial =>
      rw [step_start_some hproc]
      exact ⟨hf, List.Perm.refl _⟩
    | crash =>
      rw [step_crash hproc]
      exact ⟨hf, List.Perm.refl _⟩
    | cancel =>
      rw [step_cancel hproc]
      exact ⟨hf, List.Perm.refl _⟩
    | configure u =>
      rw [h.configure]
      exact ⟨hf, List.Perm.refl _⟩
    | poll us =>
      rw [h.poll]
      exact ⟨hf, List.Perm.refl _⟩
    | task i e => exact hnt.elim
    | main ok =>
      rw [step_main hproc]
      have hp := h.inv.proc q hproc
      have hphase := (h.proc q hproc).2
      rcases (mainStep_effect w q ok).history with hc | ⟨u, rest, q', hm, hc⟩ | ⟨p, rest, ch, un, q', hm, -, hc⟩
      · rw [hc.imported, hc.committed]
        rcases hc.store with hs | ⟨st, hs⟩ <;> rw [hs] <;> exact ⟨hf, List.Perm.refl _⟩
      · rcases hm with hm | hm
        · rw [hc, importUTXO_of_mem (h.persist q _ hproc hm u List.mem_cons_self)]
          exact ⟨hf, List.Perm.refl _⟩
        · rw [hm] at hphase
          exact hphase.elim
      · unfold ProcOK at hp
        rw [hm] at hp
        have hpm : p ∈ w.store.loadPending := hp.rest.mem_iff.1 List.mem_cons_self
        have hid := h.inv.ledger.pending_txID p hpm
        rw [hc]
        refine ⟨fun u hu r hr => hf u hu r ?_, tips_commit h.inv.ledger hinj ?_ hpm⟩
        · rcases List.mem_append.1 hr with hr | hr
          · rcases List.mem_append.1 hr with hr | hr
            · exact List.mem_append_left _ hr
            · rw [List.mem_singleton.1 hr]
              exact List.mem_append_right _ hpm
          · exact List.mem_append_right _ ((Store.mem_commitPending_pending hid).1 hr).2
        · intro u hu r hr
          refine hf u hu r ?_
          rcases List.mem_append.1 hr with hr | hr
          · exact List.mem_append_left _ hr
          · rw [List.mem_singleton.1 hr]
            exact List.mem_append_right _ hpm

theorem Fresh.left {imported : List UTXO} {c d : List (PendingBroadcast Hash)}
    (h : Fresh sdk imported (c ++ d)) : Fresh sdk imported c :=
  fun u hu p hp => h u hu p (List.mem_append_left _ hp)

/-- The tips survive any number of crashes and restarts. -/
theorem SustainInv.restart {w : World Hash} (h : SustainInv sdk mode w)
    (hinj : Function.Injective sdk.txHash)
    (hf : Fresh sdk w.imported (w.committed ++ w.store.loadPending)) {es : List (Event Hash)}
    (hes : Along (World.step sdk) (fun w e => Restores mode w e ∧ NoTask e) w es) :
    SustainInv sdk mode (w.run sdk es) ∧ tips (w.run sdk es).store ~ tips w.store := by
  have key := Along.inv (I := fun w' => SustainInv sdk mode w' ∧
      Fresh sdk w'.imported (w'.committed ++ w'.store.loadPending) ∧ tips w'.store ~ tips w.store)
    (fun w' e hI he => by
      obtain ⟨hS, hF, hT⟩ := hI
      obtain ⟨hF', hT'⟩ := hS.restartStep hinj hF he.1 he.2
      exact ⟨hS.step hinj he.1 hF'.left, hF', hT'.trans hT⟩) hes ⟨h, hf, List.Perm.refl _⟩
  exact ⟨key.1, key.2.2⟩

theorem SustainInv.tips_perm {w : World Hash} (h : SustainInv sdk mode w) {q : Proc Hash}
    (hq : w.proc = some q) (hm : q.main = .chains) :
    tips w.store ~ q.chainTips.filterMap (resume w.store) := by
  have hp := h.inv.proc q hq
  unfold ProcOK at hp
  rw [hm] at hp
  rw [List.filterMap_eq_flatMap_toList, ← List.flatMap_congr fun u _ => h.resumed_eq u]
  exact (hp.1.sync.flatMap_right _).symm

/-- **No chain tip is lost or duplicated by a crash.** Let the process `q` run chains
in the world `w`. No two pending records share a spent outpoint and each still has
its spent UTXO in the store. A restart gets to the end of `New`; and after any number
of crashes and restarts, when `New` has returned, nothing is pending, the stage is
`l2Done`, queue and store hold the same UTXOs, and these are what `resume` makes of
the tips of the chains of `q`. Replaying the records in any order gives that store. -/
theorem sustain_restart_tips (hinj : Function.Injective sdk.txHash) {s : Store Hash}
    (hstage : s.stage = some .l2Done) (hpend : s.loadPending = [])
    (hdist : (s.loadAll.map sdk.outpoint).Nodup) {es : List (Event Hash)}
    (hes : Along (World.step sdk) (Restores mode) (World.init s) es) {w : World Hash}
    (hw : w = (World.init s).run sdk es)
    (hf : Fresh sdk w.imported (w.committed ++ w.store.loadPending)) {q : Proc Hash}
    (hq : w.proc = some q) (hm : q.main = .chains) :
    (∀ p ∈ w.store.loadPending, (∃ u ∈ w.store.loadAll, p.spent = [u]) ∧
      ∀ r ∈ w.store.loadPending, ∀ u ∈ p.spent, ∀ v ∈ r.spent,
        sdk.outpoint u = sdk.outpoint v → p = r) ∧
    (∀ o initial, Restores mode w (.start o initial) →
      Restored sdk (w.run sdk [.crash, .start o initial])) ∧
    ∀ fs, Along (World.step sdk) (fun w e => Restores mode w e ∧ NoTask e) w fs →
      ∀ q', (w.run sdk fs).proc = some q' → q'.main = .ready →
        (w.run sdk fs).store.loadPending = [] ∧ (w.run sdk fs).store.stage = some .l2Done ∧
        q'.stage = .l2Done ∧ q'.queue ~ (w.run sdk fs).store.loadAll ∧
        (w.run sdk fs).store.loadAll ~ q.chainTips.filterMap (resume w.store) ∧
        ∀ l, l ~ w.store.loadPending → replayAll w.store l = (w.run sdk fs).store := by
  have h : SustainInv sdk mode w := by
    rw [hw] at hf ⊢
    exact (SustainInv.init hstage hpend hdist).run hinj hes hf.left
  have hL := h.inv.ledger
  refine ⟨fun p hp => ?_, fun o initial ho => ?_, fun fs hfs q' hq' hm' => ?_⟩
  · obtain ⟨u, raw, hb, hu⟩ := hL.pending_built p hp
    refine ⟨⟨u, hu, hb.spent⟩, fun r hr x hx y hy hxy => ?_⟩
    obtain ⟨v, raw', hb', hv⟩ := hL.pending_built r hr
    rw [hb.spent, List.mem_singleton] at hx
    rw [hb'.spent, List.mem_singleton] at hy
    have huv : u = v := hL.known_inj hinj hf.left (hL.known_of_stored hu) (hL.known_of_stored hv)
      (by rw [← hx, ← hy, hxy])
    exact hL.pending_inj p hp r hr (by rw [hb.spent, hb'.spent, huv])
  · have hsw : w.exit.startsWith initial = true := by
      rcases ho.2 with h0 | h0 <;> simp [World.startsWith, World.exit, h0]
    have hrun : w.run sdk [.crash, .start o initial] =
        { w.exit with
          proc := some (Proc.new o w.store.loadAll initial), life := w.life + 1 } := by
      show (w.step sdk .crash).step sdk (.start o initial) = _
      rw [step_crash hq, step_start rfl, if_pos hsw]
      rfl
    rw [hrun]
    exact start_restored rfl rfl
  · obtain ⟨h', htips⟩ := h.restart hinj hf hfs
    have hp' := h'.inv.proc q' hq'
    have hphase := (h'.proc q' hq').2
    unfold ProcOK at hp'
    rw [hm'] at hp' hphase
    have hall : (w.run sdk fs).store.loadAll ~ tips w.store := by
      rw [← tips_of_no_pending hp'.pending]
      exact htips
    refine ⟨hp'.pending, h'.stage, hphase, hp'.queue, hall.trans (h.tips_perm hq hm), ?_⟩
    intro l hl
    have hfl : Fresh sdk w.imported (w.committed ++ l) := by
      intro u hu p hp
      refine hf u hu p ?_
      rcases List.mem_append.1 hp with hp | hp
      · exact List.mem_append_left _ hp
      · exact List.mem_append_right _ (hl.mem_iff.1 hp)
    obtain ⟨h1, h2, h3⟩ := replayAll_spec hL hinj hl hfl
    exact Store.ext_mem (h2.trans hall.symm) (by rw [h1, hp'.pending])
      (by rw [h3, h.stage, h'.stage])

/-- Two chains with a transaction pending each, one accepted and one rejected. -/
def Concrete.twoPending : List (Event Bytes) :=
  startup (options 7 2 1) 6 ++
    [.task 0 (.save true 1), .task 0 (.broadcast .accepted),
      .task 1 (.save true 2), .task 1 (.broadcast .rejected)]

/-- The process crashes, and the next one restores. -/
def Concrete.restart : List (Event Bytes) := .crash :: startup (options 7 2 1) 6

open Concrete in
theorem sustain_restart_two_pending :
    (((World.init twoChains).run plainSDK twoPending).run plainSDK restart).store.loadAll ~
      (hop 7 (funding 0 10)).created := by
  have hes : Along (World.step plainSDK) (Restores (tagMode 7)) (World.init twoChains) twoPending :=
    Along.of_forall (by simp [twoPending, startup, Restores, options])
  have hfs : Along (World.step plainSDK) (fun w e => Restores (tagMode 7) w e ∧ NoTask e)
      ((World.init twoChains).run plainSDK twoPending) restart :=
    Along.of_forall (by simp [restart, startup, Restores, NoTask, options])
  have hrun : ((World.init twoChains).run plainSDK twoPending).proc.any (fun q => q.main = .chains ∧
      q.chainTips.filterMap (resume ((World.init twoChains).run plainSDK twoPending).store) =
        (hop 7 (funding 0 10)).created) = true := by decide +kernel
  have hnew : (((World.init twoChains).run plainSDK twoPending).run plainSDK restart).proc.any
      (fun q => q.main = .ready) = true := by decide +kernel
  obtain ⟨q, hq, hmq⟩ := (Option.any_eq_true _ _).1 hrun
  obtain ⟨q', hq', hmq'⟩ := (Option.any_eq_true _ _).1 hnew
  obtain ⟨hm, htips⟩ := of_decide_eq_true hmq
  have h := sustain_restart_tips encTx_injective rfl rfl (by decide +kernel) hes rfl
    (by decide +kernel) hq hm
  exact htips ▸ (h.2.2 restart hfs q' hq' (of_decide_eq_true hmq')).2.2.2.2.1

end TxGen
