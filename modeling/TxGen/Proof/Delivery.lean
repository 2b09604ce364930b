import Mathlib.Algebra.Order.BigOperators.Group.List
import TxGen.Proof.Concrete
import TxGen.Proof.Funding
import TxGen.Proof.Invariant

/-!
# A funded engine delivers its plan

Runs of an engine in tagged-drop mode that is configured with a funding plan and given
the one output the plan asks for, in which every broadcast is accepted and every store
write succeeds. `DeliveryPoint` says what such a run has made of the funding at each
point of the main goroutine: the L1 outputs are worth what an L2 fanout costs, the
chain UTXOs at least the leaf value, and the hops made and left are at least those of
the plan. No fanout fails to build, the engine is never stuck before its chains are
exhausted, and every schedule exhausts them.
-/

namespace TxGen

open Lib Funding
open scoped List

variable {Hash : Type} {sdk : SDK Hash}

/-! ## Goroutines of a run without accidents -/

/-- The store write succeeds, or the broadcast is accepted. -/
def TaskEvent.Smooth : TaskEvent → Prop
  | .save ok _ => ok = true
  | .broadcast o => o = .accepted
  | .commit ok => ok = true
  | .clear _ | .giveUp => True

instance : DecidablePred TaskEvent.Smooth
  | .save ok _ => inferInstanceAs (Decidable (ok = true))
  | .broadcast o => inferInstanceAs (Decidable (o = .accepted))
  | .commit ok => inferInstanceAs (Decidable (ok = true))
  | .clear _ | .giveUp => isTrue trivial

/-- Nothing has been refused to the goroutine. -/
def Task.OnTrack (sdk : SDK Hash) (m : Mode Hash) (t : Task Hash) : Prop :=
  match t.pc with
  | .wait | .done _ => True
  | .saved p | .accepted p => t.build sdk m = .ok p
  | .rejected _ | .requeued _ | .stopped => False

/-- A goroutine on track has returned only when it is done. -/
theorem Task.OnTrack.ended_iff {m : Mode Hash} {t : Task Hash} (h : t.OnTrack sdk m) :
    t.ended = true ↔ t.accepted = true := by
  unfold Task.OnTrack at h
  unfold Task.ended Task.accepted
  split at h <;> simp_all

/-- The goroutine has returned or can build its transaction. -/
def Task.CanBuild (sdk : SDK Hash) (m : Mode Hash) (t : Task Hash) : Prop :=
  t.accepted = false → ∃ p, t.build sdk m = .ok p ∧ p.txID ≠ []

/-- A step of a goroutine on its way from one build to the commit. -/
inductive Advance (sdk : SDK Hash) (m : Mode Hash) (w : World Hash) (t : Task Hash) :
    World Hash → Task Hash → Prop
  | save (p : PendingBroadcast Hash) (savedAt : ℕ) (hpc : t.pc = .wait)
      (hb : t.build sdk m = .ok p) :
      Advance sdk m w t { w with store := w.store.savePending { p with savedAt } }
        { t with pc := .saved p }
  | broadcast (p : PendingBroadcast Hash) (hpc : t.pc = .saved p) (hb : t.build sdk m = .ok p) :
      Advance sdk m w t
        { w with sent := w.sent ++ [(w.life, p)], accepted := w.accepted ++ [p] }
        { t with pc := .accepted p }
  | commit (p : PendingBroadcast Hash) (hpc : t.pc = .accepted p) (hb : t.build sdk m = .ok p) :
      Advance sdk m w t (w.commit p) (t.afterCommit p)

section Tasks

variable {w w' : World Hash} {q : Proc Hash} {i : ℕ} {t t' : Task Hash} {m : Mode Hash}

/-- **A step without accidents** does nothing or advances the goroutine. -/
theorem taskStep_advance (hctx : q.ctxDone = false) (hi : q.tasks[i]? = some t)
    (ho : t.OnTrack sdk q.mode) (hb : t.CanBuild sdk q.mode) {e : TaskEvent} (he : e.Smooth) :
    w.taskStep sdk q i e = w ∨ ∃ w' t', Advance sdk q.mode w t w' t' ∧
      w.taskStep sdk q i e = w'.setTask q i t' := by
  unfold World.taskStep
  rw [hi]
  dsimp only
  unfold Task.OnTrack at ho
  split
  case h_1 ok savedAt hpc =>
    obtain rfl : ok = true := he
    obtain ⟨p, hp, hid⟩ := hb (by rw [Task.accepted, hpc])
    right
    refine ⟨_, _, .save p savedAt hpc hp, ?_⟩
    unfold World.taskSave
    rw [hp]
    dsimp only
    rw [if_pos ⟨rfl, hid⟩]
  case h_2 o p hpc =>
    obtain rfl : o = .accepted := he
    rw [hpc] at ho
    exact Or.inr ⟨_, _, .broadcast p hpc ho, rfl⟩
  case h_3 p hpc =>
    rw [hpc] at ho
    exact ho.elim
  case h_4 ok p hpc =>
    obtain rfl : ok = true := he
    rw [hpc] at ho
    exact Or.inr ⟨_, _, .commit p hpc ho, rfl⟩
  case h_5 =>
    left
    unfold World.taskGiveUp
    rw [if_pos hctx]
  case h_6 => exact Or.inl rfl

/-- A goroutine that has not returned can advance. -/
theorem exists_advance (hi : q.tasks[i]? = some t) (ho : t.OnTrack sdk q.mode)
    (hb : t.CanBuild sdk q.mode) (ha : t.accepted = false) :
    ∃ e : TaskEvent, e.Smooth ∧ ∃ w' t', Advance sdk q.mode w t w' t' ∧
      w.taskStep sdk q i e = w'.setTask q i t' := by
  obtain ⟨p, hp, hid⟩ := hb ha
  unfold Task.OnTrack at ho
  unfold Task.accepted at ha
  cases hpc : t.pc with
  | wait =>
    refine ⟨.save true 0, rfl, _, _, .save p 0 hpc hp, ?_⟩
    simp only [World.taskStep, hi, hpc, World.taskSave, hp]
    rw [if_pos ⟨trivial, hid⟩]
  | saved p' =>
    rw [hpc] at ho
    refine ⟨.broadcast .accepted, rfl, _, _, .broadcast p' hpc ho, ?_⟩
    simp only [World.taskStep, hi, hpc]
    rfl
  | accepted p' =>
    rw [hpc] at ho
    refine ⟨.commit true, rfl, _, _, .commit p' hpc ho, ?_⟩
    simp only [World.taskStep, hi, hpc]
    rfl
  | done outs => rw [hpc] at ha; cases ha
  | rejected | requeued | stopped => rw [hpc] at ho; exact ho.elim

/-! ### Fanouts -/

/-- The outputs of a fanout into `n` outputs worth at least `out`. -/
def Outputs (sdk : SDK Hash) (n out : ℕ) (outs : List UTXO) : Prop :=
  outs.length = n ∧ ∀ v ∈ outs, out ≤ v.value ∧ Parsed sdk v

/-- The goroutine fans its UTXO out into `n` outputs worth at least `out`. -/
structure Task.Fans (sdk : SDK Hash) (m : Mode Hash) (n out : ℕ) (t : Task Hash) : Prop where
  kind : t.kind ≠ .sustain
  n_eq : t.n = n
  budget : Budget m n t.utxo.value out
  parsed : Parsed sdk t.utxo
  onTrack : t.OnTrack sdk m
  outputs : ∀ outs, t.pc = .done outs → Outputs sdk n out outs

variable {n out : ℕ}

theorem Task.Fans.build (h : t.Fans sdk m n out) (hm : m.unlocker = none) :
    ∃ p, t.build sdk m = .ok p ∧ Outputs sdk n out p.created := by
  have hfan : ∀ stage, ∃ p, fanoutPending sdk t.utxo t.n m stage = .ok p ∧
      Outputs sdk n out p.created := by
    intro stage
    rw [h.n_eq]
    obtain ⟨p, hp, hlen, hval⟩ := h.budget.fanoutPending hm h.parsed stage
    obtain ⟨⟨raw, hraw⟩, -⟩ := fanoutPending_ok hp
    exact ⟨p, hp, hlen, fun v hv => ⟨hval v hv, hraw.parsed hv⟩⟩
  unfold Task.build
  cases hk : t.kind with
  | l1 => exact hfan .l1Done
  | l2 => exact hfan .l2Partial
  | sustain => exact absurd hk h.kind

/-- A record that can be built has a txid. -/
theorem Task.build_txID (hid : ∀ raw, sdk.txID raw ≠ []) {p : PendingBroadcast Hash}
    (hb : t.build sdk m = .ok p) : p.txID ≠ [] := by
  obtain ⟨raw, hraw⟩ := Task.build_ok hb
  rw [hraw.txID]
  exact hid raw

theorem Task.Fans.canBuild (h : t.Fans sdk m n out) (hm : m.unlocker = none)
    (hid : ∀ raw, sdk.txID raw ≠ []) : t.CanBuild sdk m := by
  intro _
  obtain ⟨p, hp, -⟩ := h.build hm
  exact ⟨p, hp, Task.build_txID hid hp⟩

theorem Task.Fans.advance (h : t.Fans sdk m n out) (hm : m.unlocker = none)
    (ha : Advance sdk m w t w' t') : t'.Fans sdk m n out := by
  cases ha with
  | save p savedAt hpc hb => exact ⟨h.kind, h.n_eq, h.budget, h.parsed, hb, (by simp)⟩
  | broadcast p hpc hb => exact ⟨h.kind, h.n_eq, h.budget, h.parsed, hb, (by simp)⟩
  | commit p hpc hb =>
    obtain ⟨p', hp', hout⟩ := h.build hm
    rw [hb] at hp'
    cases hp'
    rw [Task.afterCommit, if_neg h.kind]
    refine ⟨h.kind, h.n_eq, h.budget, h.parsed, trivial, fun outs houts => ?_⟩
    cases houts
    exact hout

/-! ### Chains -/

/-- The goroutine runs a chain. -/
structure Task.Hops (sdk : SDK Hash) (m : Mode Hash) (t : Task Hash) : Prop where
  kind : t.kind = .sustain
  onTrack : t.OnTrack sdk m
  utxo : t.accepted = false → 0 < t.utxo.value ∧ Parsed sdk t.utxo

theorem Task.Hops.canBuild (h : t.Hops sdk m) (hm : m.unlocker = none)
    (hid : ∀ raw, sdk.txID raw ≠ []) : t.CanBuild sdk m := by
  intro ha
  obtain ⟨hpos, hpar⟩ := h.utxo ha
  obtain ⟨p, hp⟩ := sustainPending_of_parsed (Mode.signs_of_none hm) hpar hpos
  have hb : t.build sdk m = .ok p := by rw [Task.build, h.kind]; exact hp
  exact ⟨p, hb, Task.build_txID hid hb⟩

theorem Task.Hops.advance (h : t.Hops sdk m) (ha : Advance sdk m w t w' t') : t'.Hops sdk m := by
  have hkeep : t.pc = .wait ∨ (∃ p, t.pc = .saved p) → 0 < t.utxo.value ∧ Parsed sdk t.utxo := by
    intro hpc
    apply h.utxo
    rw [Task.accepted]
    rcases hpc with hpc | ⟨p, hpc⟩ <;> rw [hpc]
  cases ha with
  | save p savedAt hpc hb => exact ⟨h.kind, hb, fun _ => hkeep (Or.inl hpc)⟩
  | broadcast p hpc hb => exact ⟨h.kind, hb, fun _ => hkeep (Or.inr ⟨p, hpc⟩)⟩
  | commit p hpc hb =>
    obtain ⟨raw, hraw⟩ := Task.build_ok hb
    rw [Task.build, h.kind] at hb
    obtain ⟨-, -, next, hnext, -⟩ := sustainPending_ok hb
    rw [Task.afterCommit, if_pos h.kind, hnext]
    dsimp only
    split_ifs with h0
    · exact ⟨h.kind, trivial, (by simp [Task.accepted])⟩
    · exact ⟨h.kind, trivial, fun _ => ⟨Nat.pos_of_ne_zero h0,
        hraw.parsed (by rw [hnext]; exact List.mem_singleton_self _)⟩⟩

/-! ### Work -/

/-- The transactions a goroutine has still to make. -/
def Task.left (m : Mode Hash) (t : Task Hash) : ℕ :=
  if t.accepted then 0 else if t.kind = .sustain then m.hopsLeft t.utxo.value else 1

/-- The steps a goroutine has still to take, three for each transaction. -/
def Task.work (m : Mode Hash) (t : Task Hash) : ℕ :=
  3 * t.left m - match t.pc with
    | .saved _ => 1
    | .accepted _ => 2
    | _ => 0

theorem Task.left_of_accepted (ha : t.accepted = true) : t.left m = 0 := by
  rw [Task.left, if_pos ha]

/-- The commit of a hop. -/
theorem Task.Hops.left_commit (h : t.Hops sdk m) {p : PendingBroadcast Hash}
    (hpc : t.pc = .accepted p) (hb : t.build sdk m = .ok p) :
    t.left m = (t.afterCommit p).left m + 1 := by
  have ha : t.accepted = false := by rw [Task.accepted, hpc]
  obtain ⟨hpos, -⟩ := h.utxo ha
  rw [Task.build, h.kind] at hb
  obtain ⟨-, -, next, hnext, hval⟩ := sustainPending_ok hb
  have hleft : t.left m = m.hopsLeft t.utxo.value := by
    rw [Task.left, ha, if_pos h.kind]
    rfl
  rw [hleft, m.hopsLeft_sub hpos, ← hval, Task.afterCommit, if_pos h.kind, hnext]
  dsimp only
  split_ifs with h0
  · rw [h0, m.hopsLeft_zero]
    rfl
  · rw [Task.left, if_pos h.kind]
    rfl

theorem Task.left_pc {pc : TaskPc Hash} (ha : t.accepted = false)
    (ha' : ({ t with pc } : Task Hash).accepted = false) :
    ({ t with pc } : Task Hash).left m = t.left m := by
  unfold Task.left
  rw [ha, ha']

/-- What is left to do only changes by a commit. -/
theorem Advance.left_cases (ha : Advance sdk m w t w' t') :
    t.accepted = false ∧ ((w'.committed = w.committed ∧ t'.left m = t.left m) ∨
      ∃ p, t.pc = .accepted p ∧ t.build sdk m = .ok p ∧ w' = w.commit p ∧ t' = t.afterCommit p) := by
  cases ha with
  | save p savedAt hpc hb =>
    have hacc : t.accepted = false := by rw [Task.accepted, hpc]
    exact ⟨hacc, Or.inl ⟨rfl, Task.left_pc hacc rfl⟩⟩
  | broadcast p hpc hb =>
    have hacc : t.accepted = false := by rw [Task.accepted, hpc]
    exact ⟨hacc, Or.inl ⟨rfl, Task.left_pc hacc rfl⟩⟩
  | commit p hpc hb =>
    exact ⟨by rw [Task.accepted, hpc], Or.inr ⟨p, hpc, hb, rfl, rfl⟩⟩

/-- **Every step of a goroutine is progress**, while it has something to do. -/
theorem Advance.work_lt (ha : Advance sdk m w t w' t') (hleft : 0 < t.left m)
    (hcommit : ∀ p, t.pc = .accepted p → t.build sdk m = .ok p →
      (t.afterCommit p).left m < t.left m) : t'.work m < t.work m := by
  cases ha with
  | save p savedAt hpc hb =>
    have hacc : t.accepted = false := by rw [Task.accepted, hpc]
    have hsame : ({ t with pc := .saved p } : Task Hash).left m = t.left m := Task.left_pc hacc rfl
    unfold Task.work
    rw [hsame, hpc]
    dsimp only
    omega
  | broadcast p hpc hb =>
    have hacc : t.accepted = false := by rw [Task.accepted, hpc]
    have hsame : ({ t with pc := .accepted p } : Task Hash).left m = t.left m :=
      Task.left_pc hacc rfl
    unfold Task.work
    rw [hsame, hpc]
    dsimp only
    omega
  | commit p hpc hb =>
    have hlt := hcommit p hpc hb
    have hle : (t.afterCommit p).work m ≤ 3 * (t.afterCommit p).left m := Nat.sub_le _ _
    have hwork : t.work m = 3 * t.left m - 2 := by
      unfold Task.work
      rw [hpc]
    omega

theorem Task.Fans.work_lt (h : t.Fans sdk m n out) (ha : Advance sdk m w t w' t') :
    t'.work m < t.work m := by
  have hone : t.left m = 1 := by
    rw [Task.left, ha.left_cases.1, if_neg h.kind]
    rfl
  apply ha.work_lt
  · omega
  · intro p _ _
    rw [hone, Task.afterCommit, if_neg h.kind]
    exact Nat.one_pos

theorem Task.Hops.work_lt (h : t.Hops sdk m) (ha : Advance sdk m w t w' t') :
    t'.work m < t.work m := by
  have hacc := ha.left_cases.1
  apply ha.work_lt
  · rw [Task.left, hacc, if_pos h.kind, m.hopsLeft_sub (h.utxo hacc).1]
    exact Nat.succ_pos _
  · intro p hpc hb
    have := h.left_commit hpc hb
    omega

end Tasks

/-! ## The invariant -/

/-- The plan, the instance and the funding output belong together: the plan covers an
engine of the instance, and the output is worth what it asks for. -/
structure Setting (sdk : SDK Hash) (plan : FundingPlan) (instanceID : List Char) (seed : UTXO) :
    Prop where
  sufficient : ∀ m : Mode Hash, m.TaggedDrop instanceID → (m.sustainFee : ℕ) = plan.sustainFee →
    plan.Sufficient m
  positive : 0 < plan.numChains ∧ 0 < plan.maxFanoutSize ∧ 0 < plan.sustainFee
  value : seed.value = plan.initialSatoshis
  parsed : Parsed sdk seed
  txID : ∀ raw, sdk.txID raw ≠ []

/-- The number of committed hops. -/
def World.hops (w : World Hash) : ℕ := w.committed.countP fun p => p.stage = some .l2Done

/-- Nothing has been spent yet. -/
def Untouched (w : World Hash) : Prop :=
  w.committed = [] ∧ w.store.loadPending = [] ∧ w.store.stage.getD .none = .none

/-- The process has the funding output and the parameters of the plan. -/
def Seeded (plan : FundingPlan) (seed : UTXO) (q : Proc Hash) : Prop :=
  q.queue = [seed] ∧ q.config = plan.config

/-- The process has no UTXO and can wait for one. -/
def Unseeded (q : Proc Hash) : Prop :=
  q.queue = [] ∧ q.hasSource = true ∧ q.bootstrapLocked = false

/-- The parameters of the plan are fixed. -/
def Fixed (plan : FundingPlan) (q : Proc Hash) : Prop :=
  q.bootstrapLocked = true ∧ q.config = plan.config

/-- What has become of the funding output, at each point of the main goroutine. -/
def DeliveryPoint (sdk : SDK Hash) (plan : FundingPlan) (seed : UTXO) (w : World Hash)
    (q : Proc Hash) : Prop :=
  match q.main with
  | .persist rest => Untouched w ∧ q.tasks = [] ∧ q.stage = .none ∧
      (Seeded plan seed q ∧ (rest = [] ∨ rest = [seed]) ∨ Unseeded q ∧ rest = [])
  | .replay rest changed unknown => Untouched w ∧ q.tasks = [] ∧ q.stage = .none ∧
      (Seeded plan seed q ∨ Unseeded q) ∧ rest = [] ∧ changed = false ∧ unknown = 0
  | .ready => Untouched w ∧ q.tasks = [] ∧ q.stage = .none ∧ (Seeded plan seed q ∨ Unseeded q)
  | .waitForSeed => Untouched w ∧ q.tasks = [] ∧ q.stage = .none ∧ Unseeded q
  | .pushSeed rest => q.tasks = [] ∧ q.config = plan.config ∧
      (rest = [seed] ∧ q.queue = [] ∨ rest = [] ∧ q.queue = [seed])
  | .lock st => q.tasks = [] ∧ st = .none ∧ Seeded plan seed q
  | .full => q.tasks = [] ∧ Fixed plan q ∧ q.queue = [seed]
  | .l1 => Fixed plan q ∧ q.queue = [] ∧ ∃ t, q.tasks = [t] ∧
      t.Fans sdk q.mode plan.l1FanoutSize plan.maxL1OutputValue
  | .l2Start => Fixed plan q ∧ q.tasks = [] ∧
      Outputs sdk plan.l1FanoutSize plan.maxL1OutputValue q.queue
  | .l2 => Fixed plan q ∧ q.queue = [] ∧ q.tasks.length = plan.l1FanoutSize ∧
      ∀ i (t : Task Hash), q.tasks[i]? = some t →
        t.Fans sdk q.mode (splitSize plan.numChains plan.l1FanoutSize i) plan.leafValue
  | .chains => Fixed plan q ∧ q.queue.length + q.tasks.length = plan.numChains ∧
      (∀ v ∈ q.queue, plan.leafValue ≤ v.value ∧ Parsed sdk v) ∧
      (∀ t ∈ q.tasks, t.Hops sdk q.mode) ∧
      plan.numChains * plan.txsPerChain ≤ w.hops +
        (q.queue.map fun v => q.mode.hopsLeft v.value).sum + (q.tasks.map (Task.left q.mode)).sum
  | .replayStage .. | .markDone | .failed _ => False

/-- The invariant of a run without accidents. -/
structure DeliveryInv (sdk : SDK Hash) (plan : FundingPlan) (instanceID : List Char) (seed : UTXO)
    (w : World Hash) : Prop where
  untouched : w.proc = none → Untouched w
  ctx : ∀ q, w.proc = some q → q.ctxDone = false
  mode : ∀ q, w.proc = some q → q.mode.TaggedDrop instanceID
  point : ∀ q, w.proc = some q → DeliveryPoint sdk plan seed w q

/-- The events of a run without accidents: the instance is started in tagged-drop mode,
with the funding output and the parameters of the plan or waiting for both; the source
returns the funding output once the engine is configured; and nothing fails. -/
def Smooth (plan : FundingPlan) (instanceID : List Char) (seed : UTXO) (w : World Hash) :
    Event Hash → Prop
  | .start o initial => o.mode.TaggedDrop instanceID ∧
      ((initial = [seed] ∨ initial = [] ∧ w.store.loadAll = [seed]) ∧ o.config = plan.config ∨
        initial = [] ∧ w.store.loadAll = [] ∧ o.hasSource = true)
  | .crash | .cancel => False
  | .configure u => u = plan.update
  | .poll utxos => utxos = [] ∨ utxos = [seed] ∧ ∀ q, w.proc = some q → q.config = plan.config
  | .main ok => ok = true
  | .task _ e => e.Smooth

/-- How far a point of the main goroutine is from running chains. -/
def Main.phase : Main Hash → ℕ
  | .persist _ => 10
  | .replay .. | .replayStage .. => 9
  | .ready => 8
  | .waitForSeed => 7
  | .pushSeed _ => 6
  | .lock _ => 5
  | .full => 4
  | .l1 => 3
  | .l2Start => 2
  | .l2 | .markDone => 1
  | .chains | .failed _ => 0

/-- The UTXOs the main goroutine has still to save. -/
def Main.toSave : Main Hash → List UTXO
  | .persist rest | .pushSeed rest => rest
  | _ => []

/-- What a process has still to do at a point of its main goroutine. -/
def Proc.load (q : Proc Hash) : ℕ :=
  (q.main.toSave.map fun v => 3 * q.mode.hopsLeft v.value + 2).sum +
    (q.queue.map fun v => 3 * q.mode.hopsLeft v.value + 1).sum + (q.tasks.map (Task.work q.mode)).sum

/-- The same, with the configuration. -/
def Proc.work (plan : FundingPlan) (q : Proc Hash) : ℕ :=
  q.load + if q.config = plan.config then 0 else 1

/-- The distance of a world from the end of the run. -/
def World.distance (plan : FundingPlan) (w : World Hash) : ℕ × ℕ :=
  match w.proc with
  | none => (11, 0)
  | some q => (q.main.phase, q.work plan)

/-- The world `w'` is nearer to the end of the run than `w`. -/
def Nearer (plan : FundingPlan) (w' w : World Hash) : Prop :=
  Prod.Lex (· < ·) (· < ·) (w'.distance plan) (w.distance plan)

theorem wellFounded_nearer (plan : FundingPlan) :
    WellFounded (Nearer plan : World Hash → World Hash → Prop) :=
  InvImage.wf (World.distance plan) (WellFounded.prod_lex Nat.lt_wfRel.wf Nat.lt_wfRel.wf)

section Invariant

variable {plan : FundingPlan} {instanceID : List Char} {seed : UTXO} {w w' : World Hash}
  {q q' : Proc Hash}

theorem nearer_of_phase (hq : w.proc = some q) (hq' : w'.proc = some q')
    (h : q'.main.phase < q.main.phase) : Nearer plan w' w := by
  unfold Nearer World.distance
  rw [hq, hq']
  exact Prod.Lex.left _ _ h

theorem nearer_of_work (hq : w.proc = some q) (hq' : w'.proc = some q')
    (hp : q'.main.phase = q.main.phase) (h : q'.work plan < q.work plan) : Nearer plan w' w := by
  unfold Nearer World.distance
  rw [hq, hq']
  dsimp only
  rw [hp]
  exact Prod.Lex.right _ h

theorem nearer_of_load (hq : w.proc = some q) (hq' : w'.proc = some q')
    (hp : q'.main.phase = q.main.phase) (hc : q'.config = q.config) (h : q'.load < q.load) :
    Nearer plan w' w := by
  apply nearer_of_work hq hq' hp
  unfold Proc.work
  rw [hc]
  omega

theorem Nearer.ne (h : Nearer plan w' w) : w' ≠ w := by
  rintro rfl
  exact (wellFounded_nearer plan).irrefl.irrefl _ h

theorem DeliveryInv.setProc (hctx : q.ctxDone = false) (hmode : q.mode.TaggedDrop instanceID)
    (hpt : DeliveryPoint sdk plan seed w q) : DeliveryInv sdk plan instanceID seed (w.setProc q) where
  untouched h := by cases h
  ctx q' h := by cases h; exact hctx
  mode q' h := by cases h; exact hmode
  point q' h := by cases h; exact hpt

/-- The engine's parameters are those of the plan. -/
theorem sufficient_of_config (hS : Setting sdk plan instanceID seed)
    (hmode : q.mode.TaggedDrop instanceID) (hc : q.config = plan.config) :
    q.numChains = plan.numChains ∧ q.l1Count = plan.l1FanoutSize ∧ plan.Sufficient q.mode := by
  have hn : q.numChains = plan.numChains := congrArg BootstrapConfig.numChains hc
  have hf : q.fanoutSize = plan.maxFanoutSize := congrArg BootstrapConfig.fanoutSize hc
  have hfee : (q.mode.sustainFee : ℕ) = plan.sustainFee := congrArg BootstrapConfig.sustainFee hc
  have hsuf := hS.sufficient q.mode hmode hfee
  refine ⟨hn, ?_, hsuf⟩
  rw [Proc.l1Count, hn, hf]
  exact hsuf.l1Count

/-! ## The main goroutine -/

/-- Where the main goroutine waits for a poll or for its goroutines. -/
def Blocked (q : Proc Hash) : Prop :=
  q.main = .waitForSeed ∨ (q.main = .l1 ∨ q.main = .l2) ∧ (∃ t ∈ q.tasks, t.accepted = false) ∨
    q.main = .chains ∧ q.queue = []

/-- `New`, up to the point where it returns. -/
theorem DeliveryInv.startup (h : DeliveryInv sdk plan instanceID seed w) (hq : w.proc = some q)
    (hs : q.main.starting = true) :
    DeliveryInv sdk plan instanceID seed (w.mainStep q true) ∧
      Nearer plan (w.mainStep q true) w := by
  have hctx := h.ctx q hq
  have hmode := h.mode q hq
  have hpt := h.point q hq
  unfold DeliveryPoint at hpt
  cases hm : q.main with
  | persist rest =>
    rw [hm] at hpt
    obtain ⟨⟨hcom, hpend, hst⟩, htasks, hstage, hseed⟩ := hpt
    cases rest with
    | nil =>
      rw [World.mainStep, hm]
      dsimp only
      rw [hpend]
      refine ⟨DeliveryInv.setProc hctx hmode ?_, nearer_of_phase hq rfl (by rw [hm]; simp [Main.phase])⟩
      refine ⟨⟨hcom, hpend, hst⟩, htasks, hstage, ?_, rfl, rfl, rfl⟩
      exact hseed.imp And.left And.left
    | cons u rest =>
      have hrest : Seeded plan seed q ∧ u = seed ∧ rest = [] := by
        rcases hseed with ⟨hs, h0 | h0⟩ | ⟨-, h0⟩
        · cases h0
        · cases h0
          exact ⟨hs, rfl, rfl⟩
        · cases h0
      obtain ⟨hs, rfl, rfl⟩ := hrest
      rw [World.mainStep, hm]
      dsimp only
      rw [if_pos rfl]
      refine ⟨DeliveryInv.setProc hctx hmode ?_, nearer_of_load hq rfl (by rw [hm]; rfl) rfl ?_⟩
      · exact ⟨⟨hcom, hpend, hst⟩, htasks, hstage, Or.inl ⟨hs, Or.inl rfl⟩⟩
      · unfold Proc.load
        rw [hm]
        simp only [Main.toSave, List.map_nil, List.map_cons, List.sum_nil, List.sum_cons]
        omega
  | replay rest changed unknown =>
    rw [hm] at hpt
    obtain ⟨⟨hcom, hpend, hst⟩, htasks, hstage, hseed, rfl, rfl, rfl⟩ := hpt
    rw [World.mainStep, hm]
    dsimp only
    rw [if_pos rfl]
    refine ⟨DeliveryInv.setProc hctx hmode ?_, nearer_of_phase hq rfl (by rw [hm]; simp [Main.phase])⟩
    refine ⟨⟨hcom, hpend, hst⟩, htasks, ?_, hseed⟩
    show w.store.stage.getD q.stage = .none
    rw [hstage]
    exact hst
  | replayStage =>
    rw [hm] at hpt
    exact hpt.elim
  | _ =>
    rw [hm] at hs
    cases hs

/-- `bootstrap`, up to the choice of what to do. -/
theorem DeliveryInv.seeding (h : DeliveryInv sdk plan instanceID seed w) (hq : w.proc = some q)
    (hs : q.main = .ready ∨ (∃ rest, q.main = .pushSeed rest) ∨ ∃ st, q.main = .lock st) :
    DeliveryInv sdk plan instanceID seed (w.mainStep q true) ∧
      Nearer plan (w.mainStep q true) w := by
  have hctx := h.ctx q hq
  have hmode := h.mode q hq
  have hpt := h.point q hq
  unfold DeliveryPoint at hpt
  rcases hs with hm | ⟨rest, hm⟩ | ⟨st, hm⟩
  · rw [hm] at hpt
    rw [World.mainStep, hm]
    dsimp only
    obtain ⟨hun, htasks, hstage, hseed | hseed⟩ := hpt
    · rw [if_neg (by rw [hseed.1]; simp)]
      refine ⟨DeliveryInv.setProc hctx hmode ?_, nearer_of_phase hq rfl (by rw [hm]; simp [Main.phase])⟩
      exact ⟨htasks, hstage, hseed⟩
    · rw [if_pos ⟨hstage, hseed.1⟩, if_pos hseed.2.1]
      refine ⟨DeliveryInv.setProc hctx hmode ?_, nearer_of_phase hq rfl (by rw [hm]; simp [Main.phase])⟩
      exact ⟨hun, htasks, hstage, hseed⟩
  · rw [hm] at hpt
    rw [World.mainStep, hm]
    obtain ⟨htasks, hcfg, ⟨rfl, hqueue⟩ | ⟨rfl, hqueue⟩⟩ := hpt
    · dsimp only
      rw [if_pos rfl]
      refine ⟨DeliveryInv.setProc hctx hmode ?_, nearer_of_load hq rfl (by rw [hm]; rfl) rfl ?_⟩
      · refine ⟨htasks, hcfg, Or.inr ⟨rfl, ?_⟩⟩
        show Queue.push q.queue seed = [seed]
        rw [hqueue]
        rfl
      · unfold Proc.load
        rw [hm, hqueue]
        simp only [Main.toSave, List.map_nil, List.map_cons, List.sum_nil, List.sum_cons,
          show Queue.push [] seed = [seed] from rfl]
        omega
    · refine ⟨DeliveryInv.setProc hctx hmode ?_, nearer_of_phase hq rfl (by rw [hm]; simp [Main.phase])⟩
      exact ⟨htasks, rfl, hqueue, hcfg⟩
  · rw [hm] at hpt
    rw [World.mainStep, hm]
    obtain ⟨htasks, rfl, hqueue, hcfg⟩ := hpt
    have hd : (dispatch .none q.queue.length q.numChains q.l1Count : Main Hash) = .full := by
      rw [hqueue]
      rfl
    dsimp only
    rw [hd]
    refine ⟨DeliveryInv.setProc hctx hmode ?_, nearer_of_phase hq rfl (by rw [hm]; simp [Main.phase])⟩
    exact ⟨htasks, ⟨rfl, hcfg⟩, hqueue⟩

/-- A drained queue is a list of the L1 outputs, which fan out to the leaves. -/
theorem fans_of_outputs (hS : Setting sdk plan instanceID seed) (hmode : q.mode.TaggedDrop instanceID)
    (hc : q.config = plan.config) {us : List UTXO}
    (hus : Outputs sdk plan.l1FanoutSize plan.maxL1OutputValue us) {i : ℕ} {u : UTXO}
    (hi : us[i]? = some u) :
    Task.Fans sdk q.mode (splitSize plan.numChains plan.l1FanoutSize i) plan.leafValue
      ⟨.l2, u, TxGen.l2FanoutSizeForParent q.numChains us.length i, 1, .wait⟩ := by
  obtain ⟨hn, -, hsuf⟩ := sufficient_of_config hS hmode hc
  obtain ⟨hlen, hall⟩ := hus
  have hlt : i < plan.l1FanoutSize := by
    rw [← hlen]
    exact (List.getElem?_eq_some_iff.1 hi).1
  obtain ⟨hval, hpar⟩ := hall u (List.mem_of_getElem? hi)
  refine ⟨(by simp), ?_, (hsuf.l2 i hlt).mono hval, hpar, trivial, (by simp)⟩
  show TxGen.l2FanoutSizeForParent q.numChains us.length i = _
  rw [hn, hlen]
  exact l2FanoutSizeForParent_eq hsuf.numChains_pos hlt

theorem Outputs.perm {n out : ℕ} {us vs : List UTXO} (h : Outputs sdk n out us) (hp : vs ~ us) :
    Outputs sdk n out vs :=
  ⟨hp.length_eq.trans h.1, fun v hv => h.2 v (hp.mem_iff.1 hv)⟩

/-- The L1 fanout starts. -/
theorem DeliveryInv.full (h : DeliveryInv sdk plan instanceID seed w)
    (hS : Setting sdk plan instanceID seed) (hq : w.proc = some q) (hm : q.main = .full) :
    DeliveryInv sdk plan instanceID seed (w.mainStep q true) ∧
      Nearer plan (w.mainStep q true) w := by
  have hmode := h.mode q hq
  have hpt := h.point q hq
  unfold DeliveryPoint at hpt
  rw [hm] at hpt
  obtain ⟨htasks, ⟨hlock, hcfg⟩, hqueue⟩ := hpt
  obtain ⟨-, hl1, hsuf⟩ := sufficient_of_config hS hmode hcfg
  have hpop : Queue.pop q.queue = some (seed, []) := by
    rw [hqueue]
    rfl
  rw [World.mainStep, hm]
  dsimp only [World.beginL1]
  rw [hpop]
  refine ⟨DeliveryInv.setProc (h.ctx q hq) hmode ?_,
    nearer_of_phase hq rfl (by rw [hm]; simp [Main.phase])⟩
  refine ⟨⟨hlock, hcfg⟩, rfl, _, rfl, (by simp), hl1, ?_, hS.parsed, trivial, (by simp)⟩
  show Budget q.mode plan.l1FanoutSize seed.value plan.maxL1OutputValue
  rw [hS.value]
  exact hsuf.l1

/-- The L1 fanout ends. -/
theorem DeliveryInv.l1 (h : DeliveryInv sdk plan instanceID seed w) (hq : w.proc = some q)
    (hm : q.main = .l1) :
    (w.mainStep q true = w ∧ Blocked q) ∨ DeliveryInv sdk plan instanceID seed (w.mainStep q true) ∧
      Nearer plan (w.mainStep q true) w := by
  have hmode := h.mode q hq
  have hpt := h.point q hq
  unfold DeliveryPoint at hpt
  rw [hm] at hpt
  obtain ⟨hfix, hqueue, t, ht, hfan⟩ := hpt
  have ho := hfan.onTrack
  unfold Task.OnTrack at ho
  have hwait : t.accepted = false → w.mainStep q true = w → w.mainStep q true = w ∧ Blocked q := by
    intro ha hw
    exact ⟨hw, Or.inr (Or.inl ⟨Or.inl hm, t, by rw [ht]; exact List.mem_singleton_self t, ha⟩)⟩
  cases hpc : t.pc with
  | done outs =>
    right
    rw [World.mainStep, hm]
    dsimp only [World.endL1]
    rw [ht]
    dsimp only
    rw [hpc]
    refine ⟨DeliveryInv.setProc (h.ctx q hq) hmode ?_,
      nearer_of_phase hq rfl (by rw [hm]; simp [Main.phase])⟩
    refine ⟨hfix, rfl, (hfan.outputs outs hpc).perm ?_⟩
    show Queue.pushAll q.queue outs ~ outs
    rw [hqueue]
    exact Queue.restore_perm outs
  | wait | saved | accepted =>
    left
    refine hwait (by rw [Task.accepted, hpc]) ?_
    rw [World.mainStep, hm]
    dsimp only [World.endL1]
    rw [ht]
    dsimp only
    rw [hpc]
  | rejected | requeued | stopped =>
    rw [hpc] at ho
    exact ho.elim

/-- The L2 fanouts start. -/
theorem DeliveryInv.l2Start (h : DeliveryInv sdk plan instanceID seed w)
    (hS : Setting sdk plan instanceID seed) (hq : w.proc = some q) (hm : q.main = .l2Start) :
    DeliveryInv sdk plan instanceID seed (w.mainStep q true) ∧
      Nearer plan (w.mainStep q true) w := by
  have hmode := h.mode q hq
  have hpt := h.point q hq
  unfold DeliveryPoint at hpt
  rw [hm] at hpt
  obtain ⟨⟨hlock, hcfg⟩, htasks, hout⟩ := hpt
  obtain ⟨hn, -, hsuf⟩ := sufficient_of_config hS hmode hcfg
  have hus := hout.perm (Queue.drain_perm q.queue)
  have hpos := hsuf.l1.pos
  have hle := hsuf.l1_le
  have hlen := hus.1
  have hne : Queue.drain q.queue ≠ [] := by
    intro h0
    rw [h0] at hlen
    simp at hlen
    omega
  rw [World.mainStep, hm]
  dsimp only [World.beginL2]
  rw [if_neg hne, if_neg (by rw [hn, hlen]; omega)]
  refine ⟨DeliveryInv.setProc (h.ctx q hq) hmode ?_,
    nearer_of_phase hq rfl (by rw [hm]; simp [Main.phase])⟩
  refine ⟨⟨hlock, hcfg⟩, rfl, by simpa using hlen, fun i t hi => ?_⟩
  simp only [List.getElem?_mapIdx, Option.map_eq_some_iff] at hi
  obtain ⟨u, hu, rfl⟩ := hi
  exact fans_of_outputs hS hmode hcfg hus hu

/-- The L2 fanouts end: there is one UTXO per chain. -/
theorem leaves_of_fans {N P leaf : ℕ} (hP : 0 < P) {tasks : List (Task Hash)} {m : Mode Hash}
    (hlen : tasks.length = P)
    (hfans : ∀ i (t : Task Hash), tasks[i]? = some t → t.Fans sdk m (splitSize N P i) leaf)
    (hdone : ∀ t ∈ tasks, t.accepted = true) :
    Outputs sdk N leaf (tasks.flatMap Task.outputs) := by
  have hout : ∀ i (t : Task Hash), tasks[i]? = some t →
      Outputs sdk (splitSize N P i) leaf t.outputs := by
    intro i t hi
    have ha := hdone t (List.mem_of_getElem? hi)
    unfold Task.accepted at ha
    unfold Task.outputs
    split at ha
    · rename_i outs hpc
      exact (hfans i t hi).outputs outs hpc
    · cases ha
  constructor
  · have hsizes : tasks.map (fun t => t.outputs.length) = (List.range P).map (splitSize N P) := by
      apply List.ext_getElem
      · simp [hlen]
      · intro i h1 h2
        rw [List.getElem_map, List.getElem_map, List.getElem_range]
        exact (hout i _ (List.getElem?_eq_getElem _)).1
    rw [List.length_flatMap, hsizes, sum_splitSize hP]
  · intro v hv
    obtain ⟨t, ht, hvt⟩ := List.mem_flatMap.1 hv
    obtain ⟨i, hi⟩ := List.mem_iff_getElem?.1 ht
    exact (hout i t hi).2 v hvt

theorem DeliveryInv.l2 (h : DeliveryInv sdk plan instanceID seed w)
    (hS : Setting sdk plan instanceID seed) (hq : w.proc = some q) (hm : q.main = .l2) :
    (w.mainStep q true = w ∧ Blocked q) ∨ DeliveryInv sdk plan instanceID seed (w.mainStep q true) ∧
      Nearer plan (w.mainStep q true) w := by
  have hmode := h.mode q hq
  have hpt := h.point q hq
  unfold DeliveryPoint at hpt
  rw [hm] at hpt
  obtain ⟨⟨hlock, hcfg⟩, hqueue, hlen, hfans⟩ := hpt
  obtain ⟨hn, -, hsuf⟩ := sufficient_of_config hS hmode hcfg
  by_cases hall : q.tasks.all Task.ended = true
  · right
    have hdone : ∀ t ∈ q.tasks, t.accepted = true := by
      intro t ht
      obtain ⟨i, hi⟩ := List.mem_iff_getElem?.1 ht
      exact (hfans i t hi).onTrack.ended_iff.1 (List.all_eq_true.1 hall t ht)
    have hleaf := leaves_of_fans hsuf.l1.pos hlen hfans hdone
    have hacc : q.tasks.all Task.accepted = true := List.all_eq_true.2 hdone
    rw [World.mainStep, hm]
    dsimp only [World.endL2]
    rw [if_pos hall, if_pos ⟨hacc, by rw [hleaf.1, hn]⟩]
    refine ⟨DeliveryInv.setProc (h.ctx q hq) hmode ?_,
      nearer_of_phase hq rfl (by rw [hm]; simp [Main.phase])⟩
    have hperm : Queue.pushAll q.queue (q.tasks.flatMap Task.outputs) ~
        q.tasks.flatMap Task.outputs := by
      rw [hqueue]
      exact Queue.restore_perm _
    have hout := hleaf.perm hperm
    refine ⟨⟨hlock, hcfg⟩, by simpa using hout.1, hout.2, (by simp), ?_⟩
    have hsum := List.card_nsmul_le_sum
      ((Queue.pushAll q.queue (q.tasks.flatMap Task.outputs)).map
        fun v => q.mode.hopsLeft v.value) plan.txsPerChain (by
      intro x hx
      obtain ⟨v, hv, rfl⟩ := List.mem_map.1 hx
      exact hsuf.hops v.value (hout.2 v hv).1)
    rw [List.length_map, hout.1, nsmul_eq_mul, Nat.cast_id] at hsum
    show plan.numChains * plan.txsPerChain ≤ w.hops +
      ((Queue.pushAll q.queue (q.tasks.flatMap Task.outputs)).map
        fun v => q.mode.hopsLeft v.value).sum + 0
    omega
  · left
    constructor
    · rw [World.mainStep, hm]
      dsimp only [World.endL2]
      rw [if_neg hall]
    · have hex : ∃ t ∈ q.tasks, t.ended = false := by simpa using hall
      obtain ⟨t, ht, he⟩ := hex
      refine Or.inr (Or.inl ⟨Or.inr hm, t, ht, ?_⟩)
      obtain ⟨i, hi⟩ := List.mem_iff_getElem?.1 ht
      rw [Bool.eq_false_iff, ne_eq, ← (hfans i t hi).onTrack.ended_iff, he]
      exact Bool.false_ne_true

/-- A chain is started. -/
theorem DeliveryInv.chains (h : DeliveryInv sdk plan instanceID seed w)
    (hS : Setting sdk plan instanceID seed) (hq : w.proc = some q) (hm : q.main = .chains) :
    (w.mainStep q true = w ∧ Blocked q) ∨ DeliveryInv sdk plan instanceID seed (w.mainStep q true) ∧
      Nearer plan (w.mainStep q true) w := by
  have hmode := h.mode q hq
  have hpt := h.point q hq
  unfold DeliveryPoint at hpt
  rw [hm] at hpt
  obtain ⟨⟨hlock, hcfg⟩, hlen, hqueue, htasks, hhops⟩ := hpt
  obtain ⟨-, -, hsuf⟩ := sufficient_of_config hS hmode hcfg
  cases hpop : Queue.pop q.queue with
  | none =>
    left
    refine ⟨?_, Or.inr (Or.inr ⟨hm, Heap.pop_eq_none Queue.less |>.1 hpop⟩)⟩
    rw [World.mainStep, hm]
    dsimp only
    rw [hpop]
  | some r =>
    obtain ⟨u, rest⟩ := r
    have hperm := Queue.pop_perm hpop
    obtain ⟨hval, hpar⟩ := hqueue u (hperm.mem_iff.2 List.mem_cons_self)
    have hleaf : 0 < plan.leafValue := (hsuf.l2 0 hsuf.l1.pos).out_pos
    right
    rw [World.mainStep, hm]
    dsimp only
    rw [hpop]
    have hplen := hperm.length_eq
    rw [List.length_cons] at hplen
    refine ⟨DeliveryInv.setProc (h.ctx q hq) hmode ?_, nearer_of_load hq rfl (by rw [hm]) rfl ?_⟩
    · refine ⟨⟨hlock, hcfg⟩, ?_, fun v hv => hqueue v (hperm.mem_iff.2 (List.mem_cons_of_mem _ hv)),
        ?_, ?_⟩
      · dsimp only
        rw [List.length_append, List.length_singleton]
        omega
      · intro t ht
        rcases List.mem_append.1 ht with ht | ht
        · exact htasks t ht
        · rw [List.mem_singleton.1 ht]
          exact ⟨rfl, trivial, fun _ => ⟨by show 0 < u.value; omega, hpar⟩⟩
      · have hsum := (hperm.map fun v => q.mode.hopsLeft v.value).sum_eq
        rw [List.map_cons, List.sum_cons] at hsum
        rw [List.map_append, List.sum_append]
        have hnew : Task.left q.mode (⟨.sustain, u, 0, 1, .wait⟩ : Task Hash) =
          q.mode.hopsLeft u.value := rfl
        simp only [List.map_cons, List.map_nil, List.sum_cons, List.sum_nil, hnew]
        omega
    · have hsum := (hperm.map fun v => 3 * q.mode.hopsLeft v.value + 1).sum_eq
      rw [List.map_cons, List.sum_cons] at hsum
      have hnew : Task.work q.mode (⟨.sustain, u, 0, 1, .wait⟩ : Task Hash) =
        3 * q.mode.hopsLeft u.value := rfl
      unfold Proc.load
      rw [List.map_append, List.sum_append, hm]
      simp only [List.map_cons, List.map_nil, List.sum_cons, List.sum_nil, hnew]
      omega

/-- **A step of the main goroutine** waits, or brings the run nearer to its end. -/
theorem DeliveryInv.mainStep (h : DeliveryInv sdk plan instanceID seed w)
    (hS : Setting sdk plan instanceID seed) (hq : w.proc = some q) :
    (w.mainStep q true = w ∧ Blocked q) ∨ DeliveryInv sdk plan instanceID seed (w.mainStep q true) ∧
      Nearer plan (w.mainStep q true) w := by
  have hpt := h.point q hq
  unfold DeliveryPoint at hpt
  cases hm : q.main with
  | persist | replay | replayStage => exact Or.inr (h.startup hq (by rw [hm]; rfl))
  | ready => exact Or.inr (h.seeding hq (Or.inl hm))
  | waitForSeed =>
    refine Or.inl ⟨?_, Or.inl hm⟩
    rw [World.mainStep, hm]
    dsimp only
    rw [if_neg (by rw [h.ctx q hq]; simp)]
  | pushSeed rest => exact Or.inr (h.seeding hq (Or.inr (Or.inl ⟨rest, hm⟩)))
  | lock st => exact Or.inr (h.seeding hq (Or.inr (Or.inr ⟨st, hm⟩)))
  | full => exact Or.inr (h.full hS hq hm)
  | l1 => exact h.l1 hq hm
  | l2Start => exact Or.inr (h.l2Start hS hq hm)
  | l2 => exact h.l2 hS hq hm
  | chains => exact h.chains hS hq hm
  | markDone | failed =>
    rw [hm] at hpt
    exact hpt.elim

/-! ## The goroutines -/

theorem DeliveryInv.task (h : DeliveryInv sdk plan instanceID seed w)
    (hS : Setting sdk plan instanceID seed) (hq : w.proc = some q) {i : ℕ} {t : Task Hash}
    (hi : q.tasks[i]? = some t) : t.OnTrack sdk q.mode ∧ t.CanBuild sdk q.mode := by
  have hmode := (h.mode q hq).1
  have hpt := h.point q hq
  have htm := List.mem_of_getElem? hi
  unfold DeliveryPoint at hpt
  split at hpt
  case h_1 | h_2 | h_3 | h_4 => rw [hpt.2.1] at htm; cases htm
  case h_5 | h_6 | h_7 => rw [hpt.1] at htm; cases htm
  case h_8 =>
    obtain ⟨-, -, t₀, ht₀, hfan⟩ := hpt
    rw [ht₀, List.mem_singleton] at htm
    rw [htm]
    exact ⟨hfan.onTrack, hfan.canBuild hmode hS.txID⟩
  case h_9 => rw [hpt.2.1] at htm; cases htm
  case h_10 =>
    have hfan := hpt.2.2.2 i t hi
    exact ⟨hfan.onTrack, hfan.canBuild hmode hS.txID⟩
  case h_11 =>
    have hhop := hpt.2.2.2.1 t htm
    exact ⟨hhop.onTrack, hhop.canBuild hmode hS.txID⟩
  case h_12 | h_13 | h_14 => exact hpt.elim

/-- **A goroutine advances**: the run comes nearer to its end. -/
theorem DeliveryInv.advance (h : DeliveryInv sdk plan instanceID seed w) (hq : w.proc = some q)
    {i : ℕ} {t t' : Task Hash} (hi : q.tasks[i]? = some t) (ha : Advance sdk q.mode w t w' t') :
    DeliveryInv sdk plan instanceID seed (w'.setTask q i t') ∧
      Nearer plan (w'.setTask q i t') w := by
  have hctx := h.ctx q hq
  have hmode := h.mode q hq
  have hpt := h.point q hq
  have htm := List.mem_of_getElem? hi
  have hnear : t'.work q.mode < t.work q.mode → Nearer plan (w'.setTask q i t') w := by
    intro hlt
    have hproc : (w'.setTask q i t').proc = some { q with tasks := q.tasks.set i t' } := rfl
    apply nearer_of_load hq hproc rfl rfl
    have hsum := sum_map_set (b := t') (Task.work q.mode) hi
    unfold Proc.load
    dsimp only
    omega
  unfold DeliveryPoint at hpt
  split at hpt
  case h_1 | h_2 | h_3 | h_4 => rw [hpt.2.1] at htm; cases htm
  case h_5 | h_6 | h_7 => rw [hpt.1] at htm; cases htm
  case h_8 hm =>
    obtain ⟨hfix, hqueue, t₀, ht₀, hfan⟩ := hpt
    rw [ht₀] at hi htm
    rw [← List.mem_singleton.1 htm] at hfan
    have hi0 : i = 0 := by
      have := (List.getElem?_eq_some_iff.1 hi).1
      simpa using this
    refine ⟨DeliveryInv.setProc hctx hmode ?_, hnear (hfan.work_lt ha)⟩
    unfold DeliveryPoint
    dsimp only
    rw [hm]
    refine ⟨hfix, hqueue, t', ?_, hfan.advance hmode.1 ha⟩
    rw [ht₀, hi0]
    rfl
  case h_9 => rw [hpt.2.1] at htm; cases htm
  case h_10 hm =>
    obtain ⟨hfix, hqueue, hlen, hfans⟩ := hpt
    have hfan := hfans i t hi
    -- the other parents keep their place, so each still has its share of the chains
    refine ⟨DeliveryInv.setProc hctx hmode ?_, hnear (hfan.work_lt ha)⟩
    unfold DeliveryPoint
    dsimp only
    rw [hm]
    refine ⟨hfix, hqueue, by rw [List.length_set]; exact hlen, fun j x hj => ?_⟩
    by_cases hji : j = i
    · subst hji
      have hlt := (List.getElem?_eq_some_iff.1 hi).1
      rw [List.getElem?_set_self hlt] at hj
      cases hj
      exact hfan.advance hmode.1 ha
    · rw [List.getElem?_set_ne (Ne.symm hji)] at hj
      exact hfans j x hj
  case h_11 hm =>
    obtain ⟨hfix, hlen, hqueue, htasks, hhops⟩ := hpt
    have hhop := htasks t htm
    refine ⟨DeliveryInv.setProc hctx hmode ?_, hnear (hhop.work_lt ha)⟩
    unfold DeliveryPoint
    dsimp only
    rw [hm]
    refine ⟨hfix, by rw [List.length_set]; exact hlen, hqueue,
      forall_set htasks (hhop.advance ha), ?_⟩
    -- a committed hop is one made and one less to make
    have hsum := sum_map_set (b := t') (Task.left q.mode) hi
    have hbal : w'.hops + t'.left q.mode = w.hops + t.left q.mode := by
      obtain ⟨-, ⟨hcom, hleft⟩ | ⟨p, hpc, hb, rfl, rfl⟩⟩ := ha.left_cases
      · rw [World.hops, World.hops, hcom, hleft]
      · have hleft := hhop.left_commit hpc hb
        rw [Task.build, hhop.kind] at hb
        have hstage := (sustainPending_ok hb).2.1
        have hcount : (w.commit p).hops = w.hops + 1 := by
          show (w.committed ++ [p]).countP _ = _
          rw [List.countP_append, List.countP_singleton, hstage]
          rfl
        omega
    omega
  case h_12 | h_13 | h_14 => exact hpt.elim

/-! ## Events -/

theorem nearer_of_start (hw : w.proc = none) (hq' : w'.proc = some q') (h : q'.main.phase < 11) :
    Nearer plan w' w := by
  unfold Nearer World.distance
  rw [hw, hq']
  exact Prod.Lex.left _ _ h

/-- The plan is applied through `ConfigureBootstrap`. -/
theorem configure_update {q q' : Proc Hash} (h : q.configureBootstrap plan.update = .ok q') :
    q.funded = false ∧ q'.config = plan.config ∧ (q.config = plan.config → q' = q) ∧
      ∃ fee, q' = { q with
        numChains := plan.numChains, fanoutSize := plan.maxFanoutSize,
        mode := q.mode.withSustainFee fee } := by
  unfold Proc.configureBootstrap at h
  split at h
  · cases h
  rename_i hcheck
  split_ifs at h with hf
  have hfee : 0 < plan.sustainFee := by
    unfold Proc.checkUpdate at hcheck
    split_ifs at hcheck with h1 h2 h3
    simpa [FundingPlan.update, Nat.pos_iff_ne_zero] using h3
  have hmode : Proc.updateMode q.mode plan.update.sustainFee =
      q.mode.withSustainFee ⟨plan.sustainFee, hfee⟩ := dif_pos hfee
  rw [hmode] at h
  cases h
  refine ⟨by simpa using hf, rfl, fun hc => ?_, _, rfl⟩
  have hn : q.numChains = plan.numChains := congrArg BootstrapConfig.numChains hc
  have hs : q.fanoutSize = plan.maxFanoutSize := congrArg BootstrapConfig.fanoutSize hc
  have hsame : (⟨plan.sustainFee, hfee⟩ : ℕ+) = q.mode.sustainFee :=
    PNat.eq (congrArg BootstrapConfig.sustainFee hc).symm
  rw [hsame]
  show { q with numChains := (plan.numChains : ℤ), fanoutSize := (plan.maxFanoutSize : ℤ) } = q
  rw [← hn, ← hs]

/-- The script configures the engine. -/
theorem DeliveryInv.configure (h : DeliveryInv sdk plan instanceID seed w) (hq : w.proc = some q)
    (hst : q.main.starting = false) (hc : q.configureBootstrap plan.update = .ok q') :
    w.setProc q' = w ∨ DeliveryInv sdk plan instanceID seed (w.setProc q') ∧
      Nearer plan (w.setProc q') w := by
  obtain ⟨hf, hcfg', hsame, fee, hq'⟩ := configure_update hc
  by_cases hcfg : q.config = plan.config
  · left
    rw [hsame hcfg, World.setProc, ← hq]
  right
  have hpt := h.point q hq
  simp only [Proc.funded, Bool.or_eq_false_iff, decide_eq_false_iff_not, ne_eq, not_not] at hf
  -- the engine is not configured and not funded: it has returned from `New` or waits
  have hwait : (q.main = .ready ∨ q.main = .waitForSeed) ∧ q.tasks = [] ∧
      DeliveryPoint sdk plan seed w q' := by
    unfold DeliveryPoint at hpt
    split at hpt
    case h_1 hm | h_2 hm => rw [hm] at hst; cases hst
    case h_3 hm =>
      obtain ⟨hun, htasks, hstage, hseed | hseed⟩ := hpt
      · exact absurd hseed.2 hcfg
      · refine ⟨Or.inl hm, htasks, ?_⟩
        unfold DeliveryPoint
        rw [hq']
        dsimp only
        rw [hm]
        exact ⟨hun, htasks, hstage, Or.inr hseed⟩
    case h_4 hm =>
      obtain ⟨hun, htasks, hstage, hseed⟩ := hpt
      refine ⟨Or.inr hm, htasks, ?_⟩
      unfold DeliveryPoint
      rw [hq']
      dsimp only
      rw [hm]
      exact ⟨hun, htasks, hstage, hseed⟩
    case h_5 => exact absurd hpt.2.1 hcfg
    case h_6 => exact absurd hpt.2.2.2 hcfg
    case h_7 => exact absurd hpt.2.1.2 hcfg
    case h_8 | h_9 | h_10 | h_11 => exact absurd hpt.1.2 hcfg
    case h_12 | h_13 | h_14 => exact hpt.elim
  obtain ⟨hm, htasks, hpt'⟩ := hwait
  have hmain : q'.main = q.main := by rw [hq']
  refine ⟨DeliveryInv.setProc ?_ ?_ hpt', nearer_of_work hq rfl (by rw [hmain]) ?_⟩
  · rw [hq']
    exact h.ctx q hq
  · rw [hq']
    exact h.mode q hq
  · have hload : ∀ r : Proc Hash, r.main = q.main → r.queue = [] → r.tasks = [] → r.load = 0 := by
      intro r h1 h2 h3
      unfold Proc.load
      rw [h1, h2, h3]
      rcases hm with hm | hm <;> rw [hm] <;> rfl
    have hqueue : q.queue = [] := hf.1.2
    unfold Proc.work
    rw [hload q rfl hqueue htasks, hload q' hmain (by rw [hq']; exact hqueue)
      (by rw [hq']; exact htasks), if_neg hcfg, if_pos hcfg']
    exact Nat.one_pos

/-- **Every event without accidents changes nothing or brings the run nearer to its
end**, and keeps the invariant. -/
theorem DeliveryInv.step (h : DeliveryInv sdk plan instanceID seed w)
    (hS : Setting sdk plan instanceID seed) {e : Event Hash} (he : Smooth plan instanceID seed w e) :
    w.step sdk e = w ∨ DeliveryInv sdk plan instanceID seed (w.step sdk e) ∧
      Nearer plan (w.step sdk e) w := by
  cases e with
  | crash => exact he.elim
  | cancel => exact he.elim
  | start o initial =>
    have heff := step_effect sdk w (.start o initial)
    generalize w.step sdk (.start o initial) = w₁ at heff
    cases heff with
    | idle => exact Or.inl rfl
    | start _ _ hw hs =>
      obtain ⟨hmode, hfund⟩ := he
      have hun := h.untouched hw
      refine Or.inr ⟨⟨(by simp), ?_, ?_, ?_⟩, nearer_of_start hw rfl (by simp [Proc.new, Main.phase])⟩
      · rintro q ⟨⟩
        rfl
      · rintro q ⟨⟩
        exact hmode
      · rintro q ⟨⟩
        refine ⟨hun, rfl, rfl, ?_⟩
        -- the seed is given, or in the store, or still to come from the source
        rcases hfund with ⟨rfl | ⟨rfl, hall⟩, hcfg⟩ | ⟨rfl, hall, hsrc⟩
        · exact Or.inl ⟨⟨rfl, hcfg⟩, Or.inr rfl⟩
        · refine Or.inl ⟨⟨?_, hcfg⟩, Or.inl rfl⟩
          show Queue.restore w.store.loadAll = [seed]
          rw [hall]
          rfl
        · refine Or.inr ⟨⟨?_, hsrc, rfl⟩, rfl⟩
          show Queue.restore w.store.loadAll = []
          rw [hall]
          rfl
  | configure u =>
    obtain rfl : u = plan.update := he
    have heff := step_effect sdk w (.configure plan.update)
    generalize w.step sdk (.configure plan.update) = w₁ at heff
    cases heff with
    | idle => exact Or.inl rfl
    | configure _ q q' hq hst hc => exact h.configure hq hst hc
  | poll utxos =>
    have heff := step_effect sdk w (.poll utxos)
    generalize w.step sdk (.poll utxos) = w₁ at heff
    cases heff with
    | idle => exact Or.inl rfl
    | poll _ q hq hm hne =>
      obtain ⟨rfl, hcfg⟩ := he.resolve_left hne
      have hpt := h.point q hq
      unfold DeliveryPoint at hpt
      rw [hm] at hpt
      obtain ⟨-, htasks, -, hseed⟩ := hpt
      refine Or.inr ⟨DeliveryInv.setProc (h.ctx q hq) (h.mode q hq) ?_,
        nearer_of_phase hq rfl (by rw [hm]; simp [Main.phase])⟩
      exact ⟨htasks, hcfg q hq, Or.inl ⟨rfl, hseed.1⟩⟩
  | main ok =>
    obtain rfl : ok = true := he
    cases hq : w.proc with
    | none => exact Or.inl (step_none hq (by simp))
    | some q =>
      rw [step_main hq]
      exact (h.mainStep hS hq).imp And.left id
  | task i e =>
    cases hq : w.proc with
    | none => exact Or.inl (step_none hq (by simp))
    | some q =>
      rw [step_task hq]
      cases hi : q.tasks[i]? with
      | none =>
        left
        rw [World.taskStep, hi]
      | some t =>
        obtain ⟨ho, hb⟩ := h.task hS hq hi
        rcases taskStep_advance (h.ctx q hq) hi ho hb he with hw | ⟨w', t', ha, hw⟩
        · exact Or.inl hw
        · rw [hw]
          exact Or.inr (h.advance hq hi ha)

/-- An engine that waits for its funding can be configured. -/
theorem exists_configure (hS : Setting sdk plan instanceID seed) (hm : q.main = .waitForSeed)
    (htasks : q.tasks = []) (hstage : q.stage = .none) (hseed : Unseeded q) :
    ∃ q', q.configureBootstrap plan.update = .ok q' := by
  obtain ⟨hn, hf, hfee⟩ := hS.positive
  obtain ⟨hqueue, -, hlock⟩ := hseed
  have hcheck : Proc.checkUpdate plan.update = none := by
    unfold Proc.checkUpdate FundingPlan.update
    rw [if_neg (by simp; omega), if_neg (by simp; omega), if_neg (by simp; omega)]
  have hopen : q.funded = false := by
    simp [Proc.funded, Proc.bootstrapping, hm, htasks, hstage, hqueue, hlock]
  unfold Proc.configureBootstrap
  rw [hcheck]
  dsimp only
  rw [hopen]
  exact ⟨_, rfl⟩

/-- Every chain has ended. -/
def Exhausted (w : World Hash) : Prop :=
  ∃ q ∈ w.proc, q.main = .chains ∧ q.queue = [] ∧ ∀ t ∈ q.tasks, t.accepted = true

/-- **The engine is never stuck**: until its chains are exhausted some event brings the
run nearer to its end. -/
theorem DeliveryInv.progress (h : DeliveryInv sdk plan instanceID seed w)
    (hS : Setting sdk plan instanceID seed) (hq : w.proc = some q) :
    Exhausted w ∨ ∃ e, Smooth plan instanceID seed w e ∧ w.step sdk e ≠ w := by
  have htask : (∃ t ∈ q.tasks, t.accepted = false) →
      ∃ e, Smooth plan instanceID seed w e ∧ w.step sdk e ≠ w := by
    rintro ⟨t, ht, hacc⟩
    obtain ⟨i, hi⟩ := List.mem_iff_getElem?.1 ht
    obtain ⟨ho, hb⟩ := h.task hS hq hi
    obtain ⟨e, he, w', t', ha, hw⟩ := exists_advance (w := w) hi ho hb hacc
    refine ⟨.task i e, he, ?_⟩
    rw [step_task hq, hw]
    exact (h.advance hq hi ha).2.ne
  rcases h.mainStep hS hq with ⟨-, hm | ⟨-, ht⟩ | ⟨hm, hqueue⟩⟩ | ⟨-, hnear⟩
  · right
    have hpt := h.point q hq
    unfold DeliveryPoint at hpt
    rw [hm] at hpt
    obtain ⟨-, htasks, hstage, hseed⟩ := hpt
    by_cases hcfg : q.config = plan.config
    · refine ⟨.poll [seed], Or.inr ⟨rfl, fun r hr => ?_⟩, ?_⟩
      · rw [hq] at hr
        cases hr
        exact hcfg
      · have hstep : w.step sdk (.poll [seed]) = w.setProc { q with main := .pushSeed [seed] } := by
          simp [World.step, hq, hm]
        rw [hstep]
        have hnear : Nearer plan (w.setProc { q with main := .pushSeed [seed] }) w :=
          nearer_of_phase hq rfl (by rw [hm]; simp [Main.phase])
        exact hnear.ne
    · obtain ⟨q', hq'⟩ := exists_configure hS hm htasks hstage hseed
      refine ⟨.configure plan.update, rfl, fun hw => hcfg ?_⟩
      have hstep : w.step sdk (.configure plan.update) = w.setProc q' := by
        simp [World.step, hq, hm, Main.starting, hq']
      rw [hstep] at hw
      have hproc : some q' = some q := by rw [← hq, ← hw]; rfl
      cases hproc
      exact (configure_update hq').2.1
  · exact Or.inr (htask ht)
  · by_cases hall : ∀ t ∈ q.tasks, t.accepted = true
    · exact Or.inl ⟨q, hq, hm, hqueue, hall⟩
    · right
      apply htask
      simpa using hall
  · refine Or.inr ⟨.main true, rfl, ?_⟩
    rw [step_main hq]
    exact hnear.ne

/-! ## The store -/

/-- What the engine is given is new to it. -/
theorem DeliveryInv.sourceOK (h : DeliveryInv sdk plan instanceID seed w) {e : Event Hash}
    (he : Smooth plan instanceID seed w e) : w.step sdk e = w ∨ SourceOK sdk w e := by
  have hnew : ∀ us, w.committed = [] → us = [] ∨ us = [seed] → Importable sdk w us := by
    intro us hcom hus
    refine ⟨by rcases hus with rfl | rfl <;> simp, fun p hp => ?_⟩
    rw [hcom] at hp
    cases hp
  cases e with
  | start o initial =>
    refine Or.inr fun hw _ => hnew initial (h.untouched hw).1 ?_
    rcases he.2 with ⟨hi | hi, -⟩ | hi
    · exact Or.inr hi
    · exact Or.inl hi.1
    · exact Or.inl hi.1
  | poll us =>
    have heff := step_effect sdk w (.poll us)
    generalize w.step sdk (.poll us) = w₁ at heff
    cases heff with
    | idle => exact Or.inl rfl
    | poll _ q hq hm hne =>
      have hpt := h.point q hq
      unfold DeliveryPoint at hpt
      rw [hm] at hpt
      exact Or.inr (hnew us hpt.1.1 (he.imp id And.left))
  | _ => exact Or.inr trivial

end Invariant

/-! ## Runs -/

/-- What a plan promises of a state of the run: nothing has failed and nothing can fail
to build; when bootstrap returns there is a UTXO for each chain, worth at least the
leaf value; and when the chains are exhausted they have made the hops of the plan. -/
structure OnPlan (sdk : SDK Hash) (plan : FundingPlan) (w : World Hash) (q : Proc Hash) : Prop where
  running : ∀ e, q.main ≠ .failed e
  building : ∀ t ∈ q.tasks, t.pc ≠ .stopped ∧ t.requeued = false ∧
    (t.accepted = false → ∃ p, t.build sdk q.mode = .ok p)
  leaves : q.main = .chains → q.tasks = [] → q.queue ~ w.store.loadAll ∧
    q.queue.length = plan.numChains ∧ ∀ v ∈ q.queue, plan.leafValue ≤ v.value
  hops : Exhausted w → plan.tps * plan.durationSeconds ≤ w.hops

section Runs

variable {plan : FundingPlan} {instanceID : List Char} {seed : UTXO} {w : World Hash} {q : Proc Hash}

theorem DeliveryInv.onPlan (h : DeliveryInv sdk plan instanceID seed w) (hI : Inv sdk w)
    (hS : Setting sdk plan instanceID seed) (hq : w.proc = some q) : OnPlan sdk plan w q := by
  have hpt := h.point q hq
  unfold DeliveryPoint at hpt
  refine ⟨?_, ?_, ?_, ?_⟩
  · intro e hm
    rw [hm] at hpt
    exact hpt
  · intro t ht
    obtain ⟨i, hi⟩ := List.mem_iff_getElem?.1 ht
    obtain ⟨ho, hb⟩ := h.task hS hq hi
    unfold Task.OnTrack at ho
    refine ⟨fun hpc => ?_, ?_, fun ha => ?_⟩
    · rw [hpc] at ho
      exact ho
    · unfold Task.requeued
      split
      · rename_i hpc
        rw [hpc] at ho
        exact ho.elim
      · rfl
    · obtain ⟨p, hp, -⟩ := hb ha
      exact ⟨p, hp⟩
  · intro hm ht
    rw [hm] at hpt
    obtain ⟨-, hlen, hqueue, -, -⟩ := hpt
    have hC := (hI.proc q hq)
    unfold ProcOK at hC
    rw [hm] at hC
    have hsync := hC.1.sync
    rw [ht, List.flatMap_nil, List.append_nil] at hsync
    rw [ht] at hlen
    exact ⟨hsync, hlen, fun v hv => (hqueue v hv).1⟩
  · rintro ⟨q', hq', hm, hqueue, hdone⟩
    obtain rfl : q = q' := by
      rw [Option.mem_def, hq] at hq'
      exact Option.some.inj hq'
    rw [hm] at hpt
    obtain ⟨hfix, -, -, -, hhops⟩ := hpt
    obtain ⟨-, -, hsuf⟩ := sufficient_of_config hS (h.mode q hq) hfix.2
    have hleft : (q.tasks.map (Task.left q.mode)).sum = 0 := by
      rw [List.map_congr_left fun t ht => Task.left_of_accepted (hdone t ht)]
      simp
    rw [hqueue, hleft] at hhops
    have htotal := hsuf.total
    simp only [List.map_nil, List.sum_nil] at hhops
    omega

theorem DeliveryInv.init {s : Store Hash} (hstage : s.stage = none ∨ s.stage = some .none)
    (hpend : s.loadPending = []) : DeliveryInv sdk plan instanceID seed (World.init s) where
  untouched _ := by
    refine ⟨rfl, hpend, ?_⟩
    show s.stage.getD .none = .none
    rcases hstage with h | h <;> rw [h] <;> rfl
  ctx q hq := by cases hq
  mode q hq := by cases hq
  point q hq := by cases hq

theorem Setting.of_plan {ceilSqrt : ℕ → ℕ+} {input : Input}
    (hplan : buildFundingPlan ceilSqrt input = .ok plan)
    (hmax : (input.maxBootstrapTxBytes : ℕ) ≤ maxTxBytes)
    (hval : toSafeSatoshiNumber plan.initialSatoshis = .ok seed.value) (hseed : Parsed sdk seed)
    (hid : ∀ raw, sdk.txID raw ≠ []) : Setting sdk plan instanceID seed := by
  have hc := buildFundingPlan_computed hplan
  have hfee : 0 < plan.sustainFee := by
    have hleaf := hc.leafValue_pos
    rw [hc.leafValue] at hleaf
    exact Nat.pos_of_mul_pos_left hleaf
  have hv : seed.value = plan.initialSatoshis := by
    unfold toSafeSatoshiNumber at hval
    split_ifs at hval
    exact (Except.ok.inj hval).symm
  exact ⟨fun m hm hf => hc.sufficient hmax hm hf, ⟨hc.numChains_pos, hc.fanoutSize_pos, hfee⟩, hv,
    hseed, hid⟩

/-- **A funding plan is sufficient.** In every run without accidents of an engine that is
configured with the plan and given one output worth its `initialSatoshis`: no fanout
fails, bootstrap ends with one UTXO per chain worth at least the leaf value, and the
chains make the transactions of the plan before they are exhausted. No schedule goes
on for ever, and none ends before that. -/
theorem funding_plan_sufficient (hinj : Function.Injective sdk.txHash)
    (hid : ∀ raw, sdk.txID raw ≠ []) {ceilSqrt : ℕ → ℕ+} {input : Input}
    (hplan : buildFundingPlan ceilSqrt input = .ok plan)
    (hmax : (input.maxBootstrapTxBytes : ℕ) ≤ maxTxBytes)
    (hval : toSafeSatoshiNumber plan.initialSatoshis = .ok seed.value) (hseed : Parsed sdk seed)
    {s : Store Hash} (hs : s.loadAll = [] ∨ s.loadAll = [seed])
    (hstage : s.stage = none ∨ s.stage = some .none) (hpend : s.loadPending = [])
    {es : List (Event Hash)}
    (hes : Along (World.step sdk) (Smooth plan instanceID seed) (World.init s) es)
    (hf : Fresh sdk ((World.init s).run sdk es).imported ((World.init s).run sdk es).committed)
    (hq : ((World.init s).run sdk es).proc = some q) :
    OnPlan sdk plan ((World.init s).run sdk es) q ∧
    Acc (Moves (World.step sdk) (Smooth plan instanceID seed)) ((World.init s).run sdk es) ∧
    ((∀ e, Smooth plan instanceID seed ((World.init s).run sdk es) e →
        ((World.init s).run sdk es).step sdk e = (World.init s).run sdk es) →
      Exhausted ((World.init s).run sdk es)) := by
  have hS : Setting sdk plan instanceID seed := Setting.of_plan hplan hmax hval hseed hid
  have hstep : ∀ w e, DeliveryInv sdk plan instanceID seed w → Smooth plan instanceID seed w e →
      DeliveryInv sdk plan instanceID seed (w.step sdk e) := by
    intro w e h he
    rcases h.step hS he with hw | hw
    · rw [hw]
      exact h
    · exact hw.1
  have h0 : DeliveryInv sdk plan instanceID seed (World.init s) := DeliveryInv.init hstage hpend
  have hI0 : Inv sdk (World.init s) := init_inv hpend (by rcases hs with h | h <;> rw [h] <;> simp)
  have h : DeliveryInv sdk plan instanceID seed ((World.init s).run sdk es) ∧
      Inv sdk ((World.init s).run sdk es) := by
    refine Along.inv_of_later (F := fun w => Fresh sdk w.imported w.committed)
      (I := fun w => DeliveryInv sdk plan instanceID seed w ∧ Inv sdk w)
      (fun w e => Fresh.of_grows (step_grows w e)) ?_ hes ⟨h0, hI0⟩ hf
    rintro w e ⟨h, hI⟩ he hf
    refine ⟨hstep w e h he, ?_⟩
    rcases h.sourceOK he with hw | hsrc
    · rw [hw]
      exact hI
    · exact step_inv hI hinj hsrc hf
  refine ⟨h.1.onPlan h.2 hS hq, ?_, fun hstuck => ?_⟩
  · refine acc_moves (wellFounded_nearer plan) hstep (fun w e hw he hne => ?_) h.1
    rcases hw.step hS he with hsame | hnear
    · exact absurd hsame hne
    · exact hnear.2
  · rcases h.1.progress hS hq with hex | ⟨e, he, hne⟩
    · exact hex
    · exact absurd (hstuck e he) hne

end Runs

namespace Concrete

/-- One transaction per second for three seconds, with UTXOs at rest for two: two chains
of two hops, over two L1 outputs. -/
def smallInput : Input where
  tps := Nat.toPNat' 1
  durationSeconds := Nat.toPNat' 3
  fanoutSizeOverride := some (Nat.toPNat' 1)
  utxoIdleSeconds := Nat.toPNat' 2
  maxBootstrapTxBytes := Nat.toPNat' 100000000
  sustainFee := Nat.toPNat' 7

def smallPlan : FundingPlan where
  tps := 1
  durationSeconds := 3
  totalSustainTxs := 3
  txsPerChain := 2
  leafValue := 14
  initialSatoshis := 51
  l1FanoutFee := 9
  l1FanoutSize := 2
  l1FanoutTxBytes := 86
  maxL1OutputValue := 21
  maxFanoutSize := 1
  maxFanoutTxBytes := 69
  fanoutSizeSource := .env
  numChains := 2
  utxoIdleSeconds := 2
  maxBootstrapTxBytes := 100000000
  sustainFee := 7

/-- An engine is started with the funding output of the plan and runs to its end. -/
def smallRun : List (Event Bytes) :=
  .start (options 7 2 1) [funding 0 51] :: mains 6 ++ succeed 0 ++ mains 2 ++ succeed 0 ++
    succeed 1 ++ mains 3 ++ succeed 0 ++ succeed 1 ++ succeed 1 ++ succeed 0

end Concrete

open Concrete

instance (w : World Bytes) : Decidable (Exhausted w) :=
  inferInstanceAs (Decidable (∃ q ∈ w.proc, q.main = .chains ∧ q.queue = [] ∧
    ∀ t ∈ q.tasks, t.accepted = true))

theorem small_plan_delivered : Exhausted (runEmpty smallRun) ∧ 3 ≤ (runEmpty smallRun).hops := by
  have hend : Exhausted (runEmpty smallRun) := by decide +kernel
  obtain ⟨q, hq, -⟩ := id hend
  have hinj : Function.Injective plainSDK.txHash := encTx_injective
  have hplan : buildFundingPlan (fun _ => 1) smallInput = .ok smallPlan := by decide +kernel
  have hes : Along (World.step plainSDK)
      (Smooth smallPlan ['t', 'a', 'g', 't', 'a', 'g'] (funding 0 51))
      (World.init Store.empty) smallRun := by
    have hmode : (options 7 2 1).mode.TaggedDrop ['t', 'a', 'g', 't', 'a', 'g'] := by
      decide +kernel
    have hcfg : (options 7 2 1).config = smallPlan.config := by decide +kernel
    apply Along.of_forall
    simp [smallRun, mains, succeed, Smooth, TaskEvent.Smooth, hmode, hcfg]
  have h := funding_plan_sufficient hinj txID_plainSDK hplan (by decide) (by decide +kernel) ⟨[102], rfl⟩
    (Or.inl rfl) (Or.inl rfl) rfl hes (by decide +kernel) hq
  exact ⟨hend, h.1.hops hend⟩

end TxGen
