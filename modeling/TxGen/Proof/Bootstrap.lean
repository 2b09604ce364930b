import TxGen.Proof.Concrete
import TxGen.Proof.Fanout
import TxGen.Proof.Invariant

/-!
# Bootstrap over restarts

Runs of the bootstrap with fixed options, from a store that holds the funding UTXO.
What a crash can leave in the store is its `Shape`, by the persisted stage:

* `none`: the funding UTXO and at most a record of its L1 fanout, or the L1 outputs
* `l1Done`: the L1 outputs
* `l2Partial`: any mixture of L1 outputs and chain outputs; each stored UTXO has a
  weight, the number of chain UTXOs it is to become, and the weights add up to the
  number of chains

A replay keeps the shape, and so does every step until bootstrap returns. Bootstrap
chooses how to go on from `l2Partial` by the length of the queue alone, so it starts
chains on a complete fanout only when the length does not mislead it.
-/

namespace TxGen

open Lib
open scoped List

variable {Hash : Type} {sdk : SDK Hash}

/-! ## Weights -/

/-- The weight of a stored UTXO is at least one, that of a UTXO with a pending
record the number of outputs of the record, and the weights add up to `total`. -/
structure Weights (s : Store Hash) (total : ℕ) (wt : UTXO → ℕ) : Prop where
  sum : (s.loadAll.map wt).sum = total
  pos : ∀ u ∈ s.loadAll, 0 < wt u
  pending : ∀ p ∈ s.loadPending, ∀ u ∈ p.spent, p.created.length = wt u

namespace Weights

variable {s : Store Hash} {n : ℕ} {wt : UTXO → ℕ}

theorem length_le (h : Weights s n wt) : s.loadAll.length ≤ n := by
  rw [← h.sum, ← List.length_map wt]
  apply List.length_le_sum_of_one_le
  intro k hk
  obtain ⟨u, hu, rfl⟩ := List.mem_map.1 hk
  exact h.pos u hu

theorem ne_nil (h : Weights s n wt) (hn : 0 < n) : s.loadAll ≠ [] := by
  intro h0
  have hsum := h.sum
  rw [h0] at hsum
  simp at hsum
  omega

theorem clearPending (h : Weights s n wt) (txid : Bytes) : Weights (s.clearPending txid) n wt :=
  ⟨h.sum, h.pos, fun p hp => h.pending p (Store.mem_clearPending.1 hp).2⟩

theorem savePending (h : Weights s n wt) {p : PendingBroadcast Hash} {u : UTXO}
    (hspent : p.spent = [u]) (hlen : p.created.length = wt u) :
    Weights (s.savePending p) n wt := by
  refine ⟨h.sum, h.pos, fun r hr v hv => ?_⟩
  rcases Store.mem_savePending.1 hr with rfl | ⟨-, hr⟩
  · rw [hspent, List.mem_singleton] at hv
    rw [hv, hlen]
  · exact h.pending r hr v hv

/-- A commit replaces a UTXO by as many of weight one as its weight says. -/
theorem commit (h : Weights s n wt) {imported : List UTXO} {committed : List (PendingBroadcast Hash)}
    (hL : Ledger sdk s imported committed) (hinj : Function.Injective sdk.txHash)
    {p : PendingBroadcast Hash} {u : UTXO} {raw : RawTx Hash}
    (hf : Fresh sdk imported (committed ++ [p])) (hb : Built sdk p u raw) (hu : u ∈ s.loadAll)
    (hid : p.txID ≠ []) (hnz : ∀ v ∈ p.created, v.value ≠ 0) (hlen : p.created.length = wt u) :
    ∃ wt', Weights (s.commitPending p.txID p.spent p.created) n wt' ∧
      ∀ v ∈ s.loadAll, wt' v = wt v := by
  have hold : ∀ v ∈ s.loadAll, v ∉ p.created := by
    intro v hv hc
    exact hL.created_new hinj hf hb hu hc (hL.known_of_stored hv) rfl
  have hkeep : ∀ v ∈ s.loadAll, (if v ∈ p.created then 1 else wt v) = wt v :=
    fun v hv => if_neg (hold v hv)
  refine ⟨fun v => if v ∈ p.created then 1 else wt v, ⟨?_, ?_, ?_⟩, hkeep⟩
  · have hperm := hL.commit_loadAll hinj hf hb hu
    rw [List.filter_eq_self.2 (by simpa using hnz)] at hperm
    have hsum := (hperm.map fun v => if v ∈ p.created then 1 else wt v).sum_eq
    have hnew : (p.created.map fun v => if v ∈ p.created then 1 else wt v).sum =
        p.created.length := by
      rw [List.map_congr_left (fun v hv => if_pos hv)]
      simp
    have hstored := h.sum
    rw [← List.map_congr_left hkeep] at hstored
    rw [List.map_cons, List.sum_cons, List.map_append, List.sum_append, hkeep u hu, hnew] at hsum
    omega
  · intro v hv
    split_ifs with hc
    · exact Nat.one_pos
    · rcases (hL.mem_commit hinj hf hb hu).1 hv with ⟨-, ⟨hc', -⟩ | hv'⟩
      · exact absurd hc' hc
      · exact h.pos v hv'
  · intro r hr v hv
    have hrp := ((Store.mem_commitPending_pending hid).1 hr).2
    obtain ⟨x, raw', hx, hxs⟩ := hL.pending_built r hrp
    have hvx := hv
    rw [hx.spent, List.mem_singleton] at hvx
    rw [hvx, hkeep x hxs, ← hvx]
    exact h.pending r hrp v hv

end Weights

/-- The weights of a list of parents: the sizes of their fanouts. -/
theorem exists_weights {s : Store Hash} {n : ℕ} {us : List UTXO} (hus : us ~ s.loadAll)
    (hne : us ≠ []) (hle : us.length ≤ n) (hpend : s.loadPending = []) :
    ∃ wt, Weights s n wt ∧ ∀ i (hi : i < us.length), wt us[i] = splitSize n us.length i := by
  have hnodup : us.Nodup := hus.nodup_iff.2 (Table.nodup_values _)
  have hpos : 0 < us.length := List.length_pos_of_ne_nil hne
  have hidx : ∀ i (hi : i < us.length), us.idxOf us[i] = i :=
    fun i hi => hnodup.idxOf_getElem i hi
  refine ⟨fun u => splitSize n us.length (us.idxOf u), ⟨?_, ?_, ?_⟩, ?_⟩
  · have hmap : us.map (fun u => splitSize n us.length (us.idxOf u)) =
        (List.range us.length).map (splitSize n us.length) := by
      apply List.ext_getElem
      · simp
      · intro i h1 h2
        rw [List.getElem_map, List.getElem_map, List.getElem_range, hidx]
    rw [← (hus.map _).sum_eq, hmap, sum_splitSize hpos]
  · intro u _
    exact splitSize_pos hpos hle _
  · intro p hp
    rw [hpend] at hp
    cases hp
  · intro i hi
    dsimp only
    rw [hidx]

/-! ## What a crash can leave in the store -/

namespace Options

variable (o : Options Hash)

/-- The number of L1 outputs. -/
def l1Count : ℤ := ceilDiv o.config.numChains o.config.fanoutSize

/-- The options are 64-bit numbers. -/
def InRange : Prop := o.numChains < 2 ^ 63 ∧ o.fanoutSize < 2 ^ 63

instance : Decidable o.InRange := inferInstanceAs (Decidable (_ ∧ _))

theorem numChains_pos : 0 < o.config.numChains := by
  simp only [config, positiveOr, defaultNumChains]
  split_ifs <;> omega

variable {o}

theorem l1Count_le (h : o.InRange) : o.l1Count ≤ o.config.numChains := by
  obtain ⟨hn, hd⟩ := h
  have hpos : ∀ v dflt : ℤ, 0 < dflt → dflt < 2 ^ 63 → v < 2 ^ 63 →
      0 < positiveOr v dflt ∧ positiveOr v dflt < 2 ^ 63 := by
    intro v dflt h0 h1 h2
    unfold positiveOr
    split_ifs <;> omega
  have h1 := hpos o.numChains defaultNumChains (by decide) (by decide) hn
  have h2 := hpos o.fanoutSize defaultFanoutSize (by decide) (by decide) hd
  exact ceilDiv_le h1.1 h2.1 h1.2 h2.2

end Options

/-- The record of a fanout that reaches `st`. -/
def FanoutRecord (st : Stage) (p : PendingBroadcast Hash) : Prop :=
  p.stage = some st ∧ ∀ v ∈ p.created, v.value ≠ 0

/-- The store holds as many UTXOs as there are L1 outputs, and no broadcast is
pending. -/
def AllL1 (o : Options Hash) (s : Store Hash) : Prop :=
  (s.loadAll.length : ℤ) = o.l1Count ∧ 0 < o.l1Count ∧ s.loadPending = []

/-- The store holds one UTXO, and only its L1 fanout may be pending. -/
def Funding (o : Options Hash) (s : Store Hash) : Prop :=
  s.loadAll.length = 1 ∧ ∀ p ∈ s.loadPending,
    FanoutRecord .l1Done p ∧ (p.created.length : ℤ) = o.l1Count ∧ 0 < o.l1Count

/-- What a crash during bootstrap can leave in the store, by the persisted stage. -/
def Shape (o : Options Hash) (s : Store Hash) : Prop :=
  match s.stage with
  | none | some .none => Funding o s ∨ AllL1 o s
  | some .l1Done => AllL1 o s
  | some .l2Partial => (∀ p ∈ s.loadPending, FanoutRecord .l2Partial p) ∧
      ∃ wt, Weights s o.config.numChains.toNat wt
  | some .l2Done | some .unknown => False

section Shape

variable {o : Options Hash} {s : Store Hash}

theorem AllL1.shape_l1Done (h : AllL1 o s) : Shape o (s.setStage .l1Done) := h

theorem AllL1.ne_nil (h : AllL1 o s) : s.loadAll ≠ [] := by
  obtain ⟨hlen, hpos, -⟩ := h
  intro h0
  simp [h0] at hlen
  omega

theorem Shape.ne_nil (h : Shape o s) : s.loadAll ≠ [] := by
  have hn := o.numChains_pos
  have hone : Funding o s ∨ AllL1 o s → s.loadAll ≠ [] := by
    rintro (⟨h1, -⟩ | h1)
    · intro h0
      simp [h0] at h1
    · exact h1.ne_nil
  unfold Shape at h
  split at h
  · exact hone h
  · exact hone h
  · exact h.ne_nil
  · obtain ⟨-, wt, hw⟩ := h
    exact hw.ne_nil (by omega)
  · exact h.elim
  · exact h.elim

variable {imported : List UTXO} {committed : List (PendingBroadcast Hash)}
  {p : PendingBroadcast Hash} {u : UTXO} {raw : RawTx Hash}

/-- The number of stored UTXOs after the commit of a fanout. -/
theorem length_commit (hL : Ledger sdk s imported committed) (hinj : Function.Injective sdk.txHash)
    (hf : Fresh sdk imported (committed ++ [p])) (hb : Built sdk p u raw) (hu : u ∈ s.loadAll)
    (hnz : ∀ v ∈ p.created, v.value ≠ 0) :
    (s.commitPending p.txID p.spent p.created).loadAll.length + 1 =
      p.created.length + s.loadAll.length := by
  have hlen := (hL.commit_loadAll hinj hf hb hu).length_eq
  rwa [List.filter_eq_self.2 (by simpa using hnz), List.length_cons, List.length_append] at hlen

/-- The commit of the one pending record of a store with one UTXO. -/
theorem Funding.commit (h : Funding o s) (hL : Ledger sdk s imported committed)
    (hinj : Function.Injective sdk.txHash) (hf : Fresh sdk imported (committed ++ [p]))
    (hp : p ∈ s.loadPending) : AllL1 o (s.commitPending p.txID p.spent p.created) := by
  obtain ⟨h1, h2⟩ := h
  obtain ⟨⟨-, hnz⟩, hlen, hpos⟩ := h2 p hp
  obtain ⟨u, raw, hb, hu⟩ := hL.pending_built p hp
  have hcount := length_commit hL hinj hf hb hu hnz
  exact ⟨by omega, hpos, hL.commit_single h1 hp⟩

/-- **The replay of a record keeps the shape**, also after the stage of the record
has been written. -/
theorem Shape.commit (h : Shape o s) (hL : Ledger sdk s imported committed)
    (hinj : Function.Injective sdk.txHash) (hf : Fresh sdk imported (committed ++ [p]))
    (hp : p ∈ s.loadPending) :
    ∃ st, p.stage = some st ∧ Shape o (s.commitPending p.txID p.spent p.created) ∧
      Shape o ((s.commitPending p.txID p.spent p.created).setStage st) := by
  have hno : AllL1 o s → False := by
    rintro ⟨-, -, h0⟩
    rw [h0] at hp
    cases hp
  have hone : Funding o s ∨ AllL1 o s → p.stage = some .l1Done ∧
      AllL1 o (s.commitPending p.txID p.spent p.created) := by
    rintro (hfund | hall)
    · exact ⟨(hfund.2 p hp).1.1, hfund.commit hL hinj hf hp⟩
    · exact (hno hall).elim
  have hstage : (s.commitPending p.txID p.spent p.created).stage = s.stage := rfl
  unfold Shape at h
  split at h
  case h_1 hst | h_2 hst =>
    obtain ⟨hps, hall⟩ := hone h
    refine ⟨.l1Done, hps, ?_, hall.shape_l1Done⟩
    unfold Shape
    rw [hstage, hst]
    exact Or.inr hall
  case h_3 => exact (hno h).elim
  case h_4 hst =>
    obtain ⟨hrec, wt, hw⟩ := h
    obtain ⟨hps, hnz⟩ := hrec p hp
    obtain ⟨u, raw, hb, hu⟩ := hL.pending_built p hp
    have hid := hL.pending_txID p hp
    obtain ⟨wt', hw', -⟩ := hw.commit hL hinj hf hb hu hid hnz
      (hw.pending p hp u (by rw [hb.spent]; exact List.mem_singleton_self u))
    have hrec' : ∀ r ∈ (s.commitPending p.txID p.spent p.created).loadPending,
        FanoutRecord .l2Partial r :=
      fun r hr => hrec r ((Store.mem_commitPending_pending hid).1 hr).2
    refine ⟨.l2Partial, hps, ?_, hrec', wt', ⟨hw'.sum, hw'.pos, hw'.pending⟩⟩
    unfold Shape
    rw [hstage, hst]
    exact ⟨hrec', wt', hw'⟩
  case h_5 => exact h.elim
  case h_6 => exact h.elim

end Shape

/-! ## The invariant -/

/-- The stored UTXO `u` is an output of an L2 fanout. -/
def L2Output (w : World Hash) (u : UTXO) : Prop :=
  ∃ p ∈ w.committed, p.stage = some .l2Partial ∧ u ∈ p.created

/-- The store holds one UTXO per chain, each an output of an L2 fanout. -/
def Complete (o : Options Hash) (w : World Hash) : Prop :=
  (w.store.loadAll.length : ℤ) = o.config.numChains ∧ ∀ u ∈ w.store.loadAll, L2Output w u

/-- The process has the parameters of its options. -/
structure FromOptions (o : Options Hash) (q : Proc Hash) : Prop where
  numChains : q.numChains = o.config.numChains
  fanoutSize : q.fanoutSize = o.config.fanoutSize
  mode : q.mode = o.mode

theorem FromOptions.l1Count {o : Options Hash} {q : Proc Hash} (h : FromOptions o q) :
    q.l1Count = o.l1Count := by
  unfold Proc.l1Count Options.l1Count
  rw [h.numChains, h.fanoutSize]

theorem FromOptions.of_same {o : Options Hash} {q q' : Proc Hash} (h : FromOptions o q)
    (hs : SameParams q q') : FromOptions o q' :=
  ⟨hs.numChains.trans h.numChains, hs.fanoutSize.trans h.fanoutSize, hs.mode.trans h.mode⟩

/-- Where the main goroutine stands, the process and the store agree. -/
def Point (o : Options Hash) (w : World Hash) (q : Proc Hash) : Prop :=
  match q.main with
  | .persist rest => (∀ u ∈ rest, u ∈ w.store.loadAll) ∧ (w.store.stage = none → q.stage = .none)
  | .replay .. => w.store.stage = none → q.stage = .none
  | .replayStage st _ _ _ => Shape o (w.store.setStage st)
  | .ready => q.stage = w.store.stage.getD .none
  | .waitForSeed | .pushSeed _ => False
  | .lock st => st = w.store.stage.getD .none
  | .full => w.store.loadAll.length = 1
  | .l1 => w.store.stage = some .none ∧ ∃ t, q.tasks = [t] ∧ t.n = o.l1Count ∧
      (t.accepted = false → w.store.loadAll.length = 1) ∧ (t.accepted = true → AllL1 o w.store)
  | .l2Start => AllL1 o w.store
  | .l2 => w.store.stage = some .l2Partial ∧
      (∀ p ∈ w.store.loadPending, FanoutRecord .l2Partial p) ∧
      ∃ wt, Weights w.store o.config.numChains.toNat wt ∧
        ∀ t ∈ q.tasks, (t.accepted = false → (wt t.utxo : ℤ) = t.n) ∧ ∀ u ∈ t.outputs, L2Output w u
  | .markDone => Complete o w
  | .chains => w.store.stage = some .l2Done ∧ Complete o w
  | .failed _ => True

/-- The invariant of a bootstrap that has not yet started chains. -/
structure BootInv (sdk : SDK Hash) (o : Options Hash) (w : World Hash) : Prop where
  inv : Inv sdk w
  shape : (∀ q, w.proc = some q → q.main ≠ .chains) → Shape o w.store
  params : ∀ q, w.proc = some q → FromOptions o q
  point : ∀ q, w.proc = some q → Point o w q

/-- Every process is started with the options `o` and restores from the store; the
parameters are not changed, and the writes of the main goroutine succeed. -/
def Restarts (o : Options Hash) (w : World Hash) : Event Hash → Prop
  | .start o' initial => o' = o ∧ (initial = [] ∨ initial = w.store.loadAll)
  | .configure _ => False
  | .main ok => ok = true
  | _ => True

/-- When a step of the main goroutine resumes bootstrap from `l2Partial`, the length of
the queue does not mislead it: there are as many UTXOs as L1 outputs, and fewer than
chains, or at least as many as chains, and none of them is left to be fanned out. -/
def ResumeOK (o : Options Hash) (w : World Hash) : Event Hash → Prop
  | .main _ => ∀ q, w.proc = some q → q.main = .lock .l2Partial →
      ((q.queue.length : ℤ) = o.l1Count ∧ o.l1Count < o.config.numChains) ∨
        (o.config.numChains ≤ q.queue.length ∧ ∀ u ∈ q.queue, L2Output w u)
  | _ => True

theorem BootInv.setProc {o : Options Hash} {w : World Hash} {q : Proc Hash}
    (hI : Inv sdk (w.setProc q)) (hS : q.main ≠ .chains → Shape o w.store) (hpar : FromOptions o q)
    (hpt : Point o w q) : BootInv sdk o (w.setProc q) where
  inv := hI
  shape hnc := hS (hnc q rfl)
  params q' hq' := by cases hq'; exact hpar
  point q' hq' := by cases hq'; exact hpt

section MainSteps

variable {o : Options Hash} {w w' : World Hash} {q : Proc Hash}

/-- **The dispatch.** From a store of the right shape bootstrap goes on where it
should, unless the length of the queue misleads it. -/
theorem Shape.dispatch (hS : Shape o w.store) (hq : Idle w.store q) (hpar : FromOptions o q)
    (hresume : w.store.stage = some .l2Partial →
      ((q.queue.length : ℤ) = o.l1Count ∧ o.l1Count < o.config.numChains) ∨
        (o.config.numChains ≤ q.queue.length ∧ ∀ u ∈ q.queue, L2Output w u)) :
    Point o w { q with
      bootstrapLocked := true
      main := TxGen.dispatch (w.store.stage.getD .none) q.queue.length q.numChains q.l1Count } := by
  have hlen := hq.queue.length_eq
  have hpos : 0 < w.store.loadAll.length := List.length_pos_of_ne_nil hS.ne_nil
  have hone : Funding o w.store ∨ AllL1 o w.store → Point o w { q with
      bootstrapLocked := true
      main := TxGen.dispatch .none q.queue.length q.numChains q.l1Count } := by
    intro h
    unfold Point
    dsimp only [TxGen.dispatch]
    rw [hpar.l1Count]
    split_ifs with h1 h2 h3
    · have : q.queue.length = 1 := by exact_mod_cast h1
      exact hlen ▸ this
    · rcases h with h | h
      · have := h.1
        omega
      · exact h
    · rcases h with h | h
      · have := h.1
        omega
      · have := h.1
        omega
    · trivial
  have hS' := hS
  unfold Shape at hS'
  split at hS'
  case h_1 hst => rw [hst]; exact hone hS'
  case h_2 hst => rw [hst]; exact hone hS'
  case h_3 hst => rw [hst]; exact hS'
  case h_4 hst =>
    obtain ⟨-, wt, hw⟩ := hS'
    have hle := hw.length_le
    have hn := o.numChains_pos
    rw [hst]
    unfold Point
    dsimp only [TxGen.dispatch, resumePartialL2, Option.getD_some]
    rw [hpar.l1Count, hpar.numChains]
    rcases hresume hst with ⟨h1, h2⟩ | ⟨h1, h2⟩
    · rw [if_neg (by omega), if_pos h1]
      exact ⟨by omega, by omega, hq.pending⟩
    · rw [if_pos h1]
      exact ⟨by omega, fun u hu => h2 u (hq.queue.mem_iff.2 hu)⟩
  case h_5 => exact hS'.elim
  case h_6 => exact hS'.elim

/-- `bootstrapL2` starts: the fanouts of the parents give the weights. -/
theorem AllL1.beginL2 (h : AllL1 o w.store) (ho : o.InRange) {us : List UTXO}
    (hus : us ~ w.store.loadAll) :
    ∃ wt, Weights w.store o.config.numChains.toNat wt ∧ ∀ i (hi : i < us.length),
      (wt us[i] : ℤ) = l2FanoutSizeForParent o.config.numChains us.length i := by
  obtain ⟨hlen, hpos, hpend⟩ := h
  have hle := Options.l1Count_le ho
  have hn := o.numChains_pos
  have hul := hus.length_eq
  have hne : us ≠ [] := by
    intro h0
    simp [h0] at hul
    omega
  obtain ⟨wt, hw, hsize⟩ := exists_weights (n := o.config.numChains.toNat) hus hne (by omega) hpend
  refine ⟨wt, hw, fun i hi => ?_⟩
  have heq : o.config.numChains = (o.config.numChains.toNat : ℤ) := by omega
  rw [hsize i hi, heq, l2FanoutSizeForParent_eq (by omega) hi]
  rfl

/-- A write of the stage `l2Partial` over the L1 outputs. -/
theorem AllL1.shape_l2Partial (h : AllL1 o w.store) (ho : o.InRange) :
    Shape o (w.store.setStage .l2Partial) := by
  obtain ⟨wt, hw, -⟩ := h.beginL2 ho (List.Perm.refl _)
  refine ⟨fun p hp => ?_, wt, ⟨hw.sum, hw.pos, hw.pending⟩⟩
  have hp' : p ∈ w.store.loadPending := hp
  rw [h.2.2] at hp'
  cases hp'

/-- A write of the stage `none` over the funding UTXO. -/
theorem Idle.shape_none (h : Idle w.store q) (h1 : w.store.loadAll.length = 1) :
    Shape o (w.store.setStage .none) := by
  refine Or.inl ⟨h1, fun p hp => ?_⟩
  have hp' : p ∈ w.store.loadPending := hp
  rw [h.pending] at hp'
  cases hp'

/-- A complete L2 fanout. -/
theorem complete_of_endL2 {wt : UTXO → ℕ} (hC : Custody sdk w.store q) (hpar : FromOptions o q)
    (hw : Weights w.store o.config.numChains.toNat wt)
    (hout : ∀ t ∈ q.tasks, ∀ u ∈ t.outputs, L2Output w u)
    (hacc : q.tasks.all Task.accepted = true)
    (hlen : ((q.tasks.flatMap Task.outputs).length : ℤ) = q.numChains) : Complete o w := by
  have hidle : Idle w.store { q with
      tasks := [], queue := Queue.pushAll q.queue (q.tasks.flatMap Task.outputs) } :=
    hC.all_done (List.all_eq_true.1 hacc) rfl (Queue.pushAll_perm _ _)
  have hperm : q.tasks.flatMap Task.outputs ++ q.queue ~ w.store.loadAll :=
    (Queue.pushAll_perm _ _).symm.trans hidle.queue
  have hcount := hperm.length_eq
  have hle := hw.length_le
  have hn := o.numChains_pos
  rw [List.length_append] at hcount
  rw [hpar.numChains] at hlen
  -- the outputs alone are as many as the weights allow
  have hqueue : q.queue = [] := List.eq_nil_of_length_eq_zero (by omega)
  rw [hqueue, List.append_nil] at hperm
  refine ⟨by omega, fun u hu => ?_⟩
  obtain ⟨t, ht, hut⟩ := List.mem_flatMap.1 (hperm.mem_iff.2 hu)
  exact hout t ht u hut

/-- **A step of the main goroutine keeps the invariant of the bootstrap.** -/
theorem BootInv.mainEffect (h : BootInv sdk o w) (ho : o.InRange)
    (hinj : Function.Injective sdk.txHash) (hq : w.proc = some q) (hnc : q.main ≠ .chains)
    (hr : ResumeOK o w (.main true)) (he : MainEffect w q true w') (hI' : Inv sdk w')
    (hf : Fresh sdk w'.imported w'.committed) : BootInv sdk o w' := by
  have hS : Shape o w.store := h.shape fun q' hq' => by rw [hq] at hq'; cases hq'; exact hnc
  have hL := h.inv.ledger
  have hp := h.inv.proc q hq
  have hpt := h.point q hq
  have hpar := h.params q hq
  have hpar' : ∀ q', w'.proc = some q' → FromOptions o q' :=
    fun q' hq' => hpar.of_same (he.params hq hq')
  unfold ProcOK at hp
  unfold Point at hpt
  cases he with
  | wait => exact h
  | persist u rest hm =>
    rw [hm] at hpt
    have himp := importUTXO_of_mem (hpt.1 u List.mem_cons_self)
    rw [himp] at hI' hpar' ⊢
    exact BootInv.setProc hI' (fun _ => hS) (hpar' _ rfl)
      ⟨fun v hv => hpt.1 v (List.mem_cons_of_mem _ hv), hpt.2⟩
  | persisted _ hm =>
    rw [hm] at hpt
    exact BootInv.setProc hI' (fun _ => hS) (hpar' _ rfl) hpt.2
  | replayUnknown _ p rest changed unknown hm =>
    rw [hm] at hpt
    exact BootInv.setProc hI' (fun _ => hS) (hpar' _ rfl) hpt
  | replayCommit p rest changed unknown hm =>
    rw [hm] at hp
    have hpm : p ∈ w.store.loadPending := hp.rest.mem_iff.1 List.mem_cons_self
    obtain ⟨st, hst, hS', hS''⟩ := hS.commit hL hinj hf hpm
    rw [hst] at hI' hpar' ⊢
    exact BootInv.setProc hI' (fun _ => hS') (hpar' _ rfl) hS''
  | replayStage _ st rest changed unknown hm =>
    rw [hm] at hpt
    exact BootInv.setProc hI' (fun _ => hpt) (hpar' _ rfl) (fun hn => by cases hn)
  | restored _ changed hm =>
    rw [hm] at hpt
    refine BootInv.setProc hI' (fun _ => hS) (hpar' _ rfl) ?_
    show w.store.stage.getD q.stage = w.store.stage.getD .none
    cases hst : w.store.stage with
    | none => exact hpt hst
    | some st => rfl
  | restoredUnknown _ changed unknown hm hu =>
    rw [hm] at hp
    exact absurd hp.unknown hu
  | waitForSeed _ hm _ hqueue =>
    rw [hm] at hp
    have hnil : [] ~ w.store.loadAll := hqueue ▸ hp.queue
    exact absurd hnil.nil_eq.symm hS.ne_nil
  | ready _ hm =>
    rw [hm] at hpt
    exact BootInv.setProc hI' (fun _ => hS) (hpar' _ rfl) hpt
  | pushSeed _ _ hm => rw [hm] at hpt; exact hpt.elim
  | seeded _ hm => rw [hm] at hpt; exact hpt.elim
  | lock _ st hm =>
    rw [hm] at hpt hp
    have hd := hS.dispatch hp hpar fun hst => hr q hq (by rw [hm, hpt, hst]; rfl)
    rw [← hpt] at hd
    exact BootInv.setProc hI' (fun _ => hS) (hpar' _ rfl) hd
  | beginL1 _ seed rest hm hpop =>
    rw [hm] at hpt hp
    exact BootInv.setProc hI' (fun _ => hp.1.shape_none hpt) (hpar' _ rfl)
      ⟨rfl, _, rfl, hpar.l1Count, fun _ => hpt, fun ha => by cases ha⟩
  | endL1 _ t outputs hm ht hpc =>
    rw [hm] at hpt
    obtain ⟨-, t', ht', -, -, hdone⟩ := hpt
    have htt : t' = t := by
      rw [ht] at ht'
      exact (List.cons.inj ht').1.symm
    have hall := hdone (by rw [htt, Task.accepted, hpc])
    exact BootInv.setProc hI' (fun _ => hall) (hpar' _ rfl) hall
  | beginL2 _ hm hne hle =>
    rw [hm] at hpt hp
    obtain ⟨wt, hw, hsize⟩ := hpt.beginL2 ho ((Queue.drain_perm q.queue).trans hp.1.queue)
    have hnone : ∀ p ∈ (w.store.setStage .l2Partial).loadPending, FanoutRecord .l2Partial p := by
      intro p hpm
      have hpm' : p ∈ w.store.loadPending := hpm
      rw [hp.1.pending] at hpm'
      cases hpm'
    refine BootInv.setProc hI' (fun _ => hpt.shape_l2Partial ho) (hpar' _ rfl)
      ⟨rfl, hnone, wt, ⟨hw.sum, hw.pos, hw.pending⟩, ?_⟩
    intro t ht
    obtain ⟨i, hi, rfl⟩ := List.mem_mapIdx.1 ht
    refine ⟨fun _ => ?_, fun u hu => by cases hu⟩
    rw [hpar.numChains]
    exact hsize i hi
  | endL2 _ hm hacc hlen =>
    rw [hm] at hpt hp
    obtain ⟨-, -, wt, hw, htasks⟩ := hpt
    have hc := complete_of_endL2 hp.1 hpar hw (fun t ht => (htasks t ht).2) hacc hlen
    exact BootInv.setProc hI' (fun hne => absurd rfl hne) (hpar' _ rfl) ⟨rfl, hc⟩
  | markDone _ hm =>
    rw [hm] at hpt
    exact BootInv.setProc hI' (fun hne => absurd rfl hne) (hpar' _ rfl) ⟨rfl, hpt⟩
  | startChain _ _ _ hm => exact absurd hm hnc
  | fail => exact BootInv.setProc hI' (fun _ => hS) (hpar' _ rfl) trivial
  | failAt _ st queue e hm =>
    refine BootInv.setProc hI' (fun _ => ?_) (hpar' _ rfl) trivial
    rcases hm with ⟨hm, rfl⟩ | ⟨hm | hm, rfl⟩
    · rw [hm] at hpt hp
      exact hp.1.shape_none hpt
    · rw [hm] at hpt
      exact hpt.shape_l2Partial ho
    · rw [hm] at hpt
      obtain ⟨-, hrec, wt, hw, -⟩ := hpt
      exact ⟨hrec, wt, ⟨hw.sum, hw.pos, hw.pending⟩⟩

end MainSteps

section TaskSteps

variable {o : Options Hash} {w w' : World Hash} {q : Proc Hash} {i : ℕ} {t t' : Task Hash}
  {e : TaskEvent} {queue : List UTXO}

/-- A step of the L1 fanout. -/
theorem BootInv.stepL1 (h : BootInv sdk o w) (hinj : Function.Injective sdk.txHash)
    (hq : w.proc = some q) (hm : q.main = .l1) (hi : q.tasks[i]? = some t)
    (he : TaskEffect sdk w q t e w' queue t')
    (hI' : Inv sdk (w'.setProc { q with queue, tasks := q.tasks.set i t' }))
    (hf : Fresh sdk w'.imported w'.committed) :
    BootInv sdk o (w'.setProc { q with queue, tasks := q.tasks.set i t' }) := by
  have hS : Shape o w.store := h.shape fun q' hq' => by
    rw [hq] at hq'
    cases hq'
    rw [hm]
    simp
  have hp := h.inv.proc q hq
  have hpt := h.point q hq
  have hpar : FromOptions o { q with queue, tasks := q.tasks.set i t' } :=
    (h.params q hq).of_same ⟨rfl, rfl, rfl, id⟩
  unfold ProcOK at hp
  unfold Point at hpt
  rw [hm] at hp hpt
  obtain ⟨hC, -, t₀, ht₀, hk⟩ := hp
  obtain ⟨hst, t₁, ht₁, hn, h1, -⟩ := hpt
  have heq : t₀ = t ∧ t₁ = t ∧ i = 0 := by
    rw [ht₀] at ht₁
    rw [ht₀] at hi
    cases i with
    | zero => simp_all
    | succ i => simp at hi
  obtain ⟨rfl, rfl, rfl⟩ := heq
  have hset : q.tasks.set 0 t' = [t'] := by rw [ht₀]; rfl
  obtain ⟨ha, hcases⟩ := he.store_cases
  have hn' : t'.n = o.l1Count := he.move.n.trans hn
  have hrec : ∀ p ∈ w.store.loadPending,
      FanoutRecord .l1Done p ∧ (p.created.length : ℤ) = o.l1Count ∧ 0 < o.l1Count := by
    unfold Shape at hS
    rw [hst] at hS
    rcases hS with hS | hS
    · exact hS.2
    · rw [hS.2.2]
      simp
  -- as long as the fanout is not committed, the store holds the funding UTXO
  have hfund : ∀ s : Store Hash, w'.store = s → s.stage = some .none → s.loadAll.length = 1 →
      (∀ p ∈ s.loadPending,
        FanoutRecord .l1Done p ∧ (p.created.length : ℤ) = o.l1Count ∧ 0 < o.l1Count) →
      t'.accepted = false →
      BootInv sdk o (w'.setProc { q with queue, tasks := q.tasks.set 0 t' }) := by
    intro s hs hst' hlen hpend ha'
    subst hs
    refine BootInv.setProc hI' (fun _ => ?_) hpar ?_
    · unfold Shape
      rw [hst']
      exact Or.inl ⟨hlen, hpend⟩
    · unfold Point
      dsimp only
      rw [hm]
      exact ⟨hst', t', hset, hn', fun _ => hlen, fun hacc => by rw [ha'] at hacc; cases hacc⟩
  -- the record is written, removed, or committed
  rcases hcases with ⟨p, savedAt, hb, hs, -, ha'⟩ | ⟨hs, -, ha'⟩ | ⟨p, hpc, rfl, rfl⟩
  · rw [Task.build, hk] at hb
    obtain ⟨-, hps, hpos, hlen, hnz⟩ := fanoutPending_ok hb
    refine hfund _ hs hst (h1 ha) (fun r hr => ?_) ha'
    rcases Store.mem_savePending.1 hr with rfl | ⟨-, hr⟩
    · refine ⟨⟨hps, hnz⟩, ?_, by omega⟩
      show (p.created.length : ℤ) = _
      omega
    · exact hrec r hr
  · rcases hs with hs | ⟨txid, hs⟩
    · exact hfund _ hs hst (h1 ha) hrec ha'
    · exact hfund _ hs hst (h1 ha) (fun r hr => hrec r (Store.mem_clearPending.1 hr).2) ha'
  · have hrecord : t₁.record = some p := by rw [Task.record, hpc]
    have htm : t₁ ∈ q.tasks := by rw [ht₁]; exact List.mem_singleton_self _
    obtain ⟨hb, hid⟩ := hC.records t₁ htm p hrecord
    obtain ⟨raw, hraw⟩ := Task.build_ok hb
    have hu := hC.durable t₁ htm ha
    rw [Task.build, hk] at hb
    obtain ⟨-, hps, hpos, hlen, hnz⟩ := fanoutPending_ok hb
    have hcount := length_commit h.inv.ledger hinj hf hraw hu hnz
    have hone := h1 ha
    -- the committed fanout has no record left
    have hpend : (w.commit p).store.loadPending = [] := by
      have hC' := hI'.proc _ rfl
      unfold ProcOK at hC'
      dsimp only at hC'
      rw [hm, hset] at hC'
      rw [List.eq_nil_iff_forall_not_mem]
      intro r hr
      obtain ⟨x, hx, hown⟩ := hC'.1.owner r hr
      have hacc := hown.1
      rw [List.mem_singleton.1 hx, Task.afterCommit, if_neg (by rw [hk]; decide)] at hacc
      cases hacc
    have hall : AllL1 o (w.commit p).store := by
      refine ⟨?_, by omega, hpend⟩
      show ((w.store.commitPending p.txID p.spent p.created).loadAll.length : ℤ) = _
      omega
    refine BootInv.setProc hI' (fun _ => ?_) hpar ?_
    · unfold Shape
      rw [show (w.commit p).store.stage = some .none from hst]
      exact Or.inr hall
    · unfold Point
      dsimp only
      rw [hm]
      refine ⟨hst, _, hset, hn', fun hacc => ?_, fun _ => hall⟩
      rw [Task.afterCommit, if_neg (by rw [hk]; decide)] at hacc
      cases hacc

theorem L2Output.mono {u : UTXO} (h : L2Output w u) (hsub : w.committed ⊆ w'.committed) :
    L2Output w' u := by
  obtain ⟨p, hp, hps, hu⟩ := h
  exact ⟨p, hsub hp, hps, hu⟩

/-- A step of an L2 fanout. -/
theorem BootInv.stepL2 (h : BootInv sdk o w) (hinj : Function.Injective sdk.txHash)
    (hq : w.proc = some q) (hm : q.main = .l2) (hi : q.tasks[i]? = some t)
    (he : TaskEffect sdk w q t e w' queue t')
    (hI' : Inv sdk (w'.setProc { q with queue, tasks := q.tasks.set i t' }))
    (hf : Fresh sdk w'.imported w'.committed) :
    BootInv sdk o (w'.setProc { q with queue, tasks := q.tasks.set i t' }) := by
  have hp := h.inv.proc q hq
  have hpt := h.point q hq
  have hpar : FromOptions o { q with queue, tasks := q.tasks.set i t' } :=
    (h.params q hq).of_same ⟨rfl, rfl, rfl, id⟩
  unfold ProcOK at hp
  unfold Point at hpt
  rw [hm] at hp hpt
  obtain ⟨hC, -, hkind⟩ := hp
  obtain ⟨hst, hrec, wt, hw, htasks⟩ := hpt
  have htm := List.mem_of_getElem? hi
  have hk := hkind t htm
  obtain ⟨ha, hcases⟩ := he.store_cases
  have hsize := (htasks t htm).1 ha
  have hmove := he.move
  have hutxo : t'.utxo = t.utxo := hmove.utxo (by rw [hk]; decide)
  -- it is enough to have weights and records for the new store
  have hnew : ∀ (s : Store Hash) (wt' : UTXO → ℕ), w'.store = s → s.stage = some .l2Partial →
      (∀ p ∈ s.loadPending, FanoutRecord .l2Partial p) →
      Weights s o.config.numChains.toNat wt' →
      (∀ x ∈ q.tasks.set i t', (x.accepted = false → (wt' x.utxo : ℤ) = x.n) ∧
        ∀ u ∈ x.outputs, L2Output w' u) →
      BootInv sdk o (w'.setProc { q with queue, tasks := q.tasks.set i t' }) := by
    intro s wt' hs hst' hrec' hw' htasks'
    subst hs
    refine BootInv.setProc hI' (fun _ => ?_) hpar ?_
    · unfold Shape
      rw [hst']
      exact ⟨hrec', wt', hw'⟩
    · unfold Point
      dsimp only
      rw [hm]
      exact ⟨hst', hrec', wt', hw', htasks'⟩
  -- a fanout that is not committed keeps its size and has no outputs
  have hkeep : w'.committed = w.committed → t'.accepted = false →
      ∀ x ∈ q.tasks.set i t', (x.accepted = false → (wt x.utxo : ℤ) = x.n) ∧
        ∀ u ∈ x.outputs, L2Output w' u := by
    intro hcom ha'
    refine forall_set (fun x hx => ⟨(htasks x hx).1, fun u hu => ?_⟩) ⟨fun _ => ?_, fun u hu => ?_⟩
    · exact ((htasks x hx).2 u hu).mono (by rw [hcom]; exact fun _ h => h)
    · rw [hutxo, hmove.n, hsize]
    · unfold Task.accepted at ha'
      unfold Task.outputs at hu
      split at hu
      · rename_i hpc
        rw [hpc] at ha'
        cases ha'
      · cases hu
  rcases hcases with ⟨p, savedAt, hb, hs, hcom, ha'⟩ | ⟨hs, hcom, ha'⟩ | ⟨p, hpc, rfl, rfl⟩
  · obtain ⟨raw, hraw⟩ := Task.build_ok hb
    rw [Task.build, hk] at hb
    obtain ⟨-, hps, hpos, hlen, hnz⟩ := fanoutPending_ok hb
    refine hnew _ wt hs hst ?_ (hw.savePending hraw.spent ?_) (hkeep hcom ha')
    · intro r hr
      rcases Store.mem_savePending.1 hr with rfl | ⟨-, hr⟩
      · exact ⟨hps, hnz⟩
      · exact hrec r hr
    · show p.created.length = _
      omega
  · rcases hs with hs | ⟨txid, hs⟩
    · exact hnew _ wt hs hst hrec hw (hkeep hcom ha')
    · exact hnew _ wt hs hst (fun r hr => hrec r (Store.mem_clearPending.1 hr).2)
        (hw.clearPending txid) (hkeep hcom ha')
  · obtain ⟨hb, hid⟩ := hC.records t htm p (by rw [Task.record, hpc]; rfl)
    obtain ⟨raw, hraw⟩ := Task.build_ok hb
    have hu := hC.durable t htm ha
    rw [Task.build, hk] at hb
    obtain ⟨-, hps, hpos, hlen, hnz⟩ := fanoutPending_ok hb
    obtain ⟨wt', hw', hwt'⟩ := hw.commit h.inv.ledger hinj hf hraw hu hid hnz (by omega)
    have hdone : t.afterCommit p = { t with pc := .done p.created } := by
      rw [Task.afterCommit, if_neg (by rw [hk]; decide)]
    refine hnew _ wt' rfl hst
      (fun r hr => hrec r ((Store.mem_commitPending_pending hid).1 hr).2) hw' ?_
    rw [hdone]
    refine forall_set (fun x hx => ⟨fun hax => ?_, fun v hv => ?_⟩)
      ⟨(by simp [Task.accepted]), fun v hv => ⟨p, ?_, hps, hv⟩⟩
    · rw [hwt' x.utxo (hC.durable x hx hax)]
      exact (htasks x hx).1 hax
    · exact ((htasks x hx).2 v hv).mono (List.subset_append_left _ _)
    · exact List.mem_append_right _ (List.mem_singleton_self p)

end TaskSteps

/-- **Every step keeps the invariant of the bootstrap**, as long as no chain has
been started. -/
theorem BootInv.step {o : Options Hash} {w : World Hash} (h : BootInv sdk o w) (ho : o.InRange)
    (hinj : Function.Injective sdk.txHash) {e : Event Hash} (he : Restarts o w e)
    (hr : ResumeOK o w e) (hnc : ∀ q, w.proc = some q → q.main ≠ .chains)
    (hf : Fresh sdk (w.step sdk e).imported (w.step sdk e).committed) :
    BootInv sdk o (w.step sdk e) := by
  have hS := h.shape hnc
  have hsrc : SourceOK sdk w e ∨ ∃ us, e = .poll us := by
    cases e with
    | start o' initial =>
      have hre : Restores o'.mode w (.start o' initial) := ⟨rfl, he.2⟩
      exact hre.sourceOK sdk
    | poll us => exact Or.inr ⟨us, rfl⟩
    | _ => exact Or.inl trivial
  rcases hsrc with hsrc | ⟨us, rfl⟩
  swap
  · -- the source is not polled
    have heff := step_effect sdk w (.poll us)
    generalize w.step sdk (.poll us) = w' at heff
    cases heff with
    | idle => exact h
    | poll _ q hq hm =>
      have hpt := h.point q hq
      unfold Point at hpt
      rw [hm] at hpt
      exact hpt.elim
  have hI' := step_inv h.inv hinj hsrc hf
  have heff := step_effect sdk w e
  generalize w.step sdk e = w' at heff hI' hf
  cases heff with
  | idle => exact h
  | start o' initial hw hs =>
    obtain ⟨rfl, hinit⟩ := he
    refine ⟨hI', fun _ => hS, ?_, ?_⟩
    · rintro q ⟨⟩
      exact ⟨rfl, rfl, rfl⟩
    · rintro q ⟨⟩
      have hre : Restores o'.mode w (.start o' initial) := ⟨rfl, hinit⟩
      exact ⟨hre.persist rfl, fun _ => rfl⟩
  | crash => exact ⟨hI', fun _ => hS, by rintro q ⟨⟩, by rintro q ⟨⟩⟩
  | cancel q hq =>
    exact BootInv.setProc hI' (fun _ => hS) ((h.params q hq).of_same ⟨rfl, rfl, rfl, id⟩)
      (h.point q hq)
  | configure => exact he.elim
  | poll _ q hq hm =>
    have hpt := h.point q hq
    unfold Point at hpt
    rw [hm] at hpt
    exact hpt.elim
  | main ok q w' hq hmain =>
    obtain rfl : ok = true := he
    exact h.mainEffect ho hinj hq (hnc q hq) hr hmain hI' hf
  | task i te q t t' w' queue hq hi htask =>
    have hp := h.inv.proc q hq
    unfold ProcOK at hp
    split at hp
    case h_11 hm => exact h.stepL1 hinj hq hm hi htask hI' hf
    case h_12 hm => exact h.stepL2 hinj hq hm hi htask hI' hf
    case h_13 hm => exact absurd hm (hnc q hq)
    case h_1 => rw [hp.1] at hi; simp at hi
    case h_2 | h_3 | h_4 | h_7 => rw [hp.tasks] at hi; simp at hi
    case h_5 | h_6 | h_8 | h_9 | h_10 => rw [hp.1.tasks] at hi; simp at hi
    case h_14 => rw [hp] at hi; simp at hi

/-- No process runs chains. -/
def NoChains (w : World Hash) : Prop := ∀ q, w.proc = some q → q.main ≠ .chains

instance [DecidableEq Hash] (w : World Hash) : Decidable (NoChains w) :=
  inferInstanceAs (Decidable (∀ q ∈ w.proc, q.main ≠ .chains))

instance [DecidableEq Hash] (w : World Hash) (u : UTXO) : Decidable (L2Output w u) :=
  inferInstanceAs (Decidable (∃ p ∈ w.committed, p.stage = some .l2Partial ∧ u ∈ p.created))

instance [DecidableEq Hash] (o : Options Hash) (w : World Hash) : ∀ e, Decidable (ResumeOK o w e)
  | .main _ => inferInstanceAs (Decidable (∀ q ∈ w.proc, q.main = .lock .l2Partial →
      ((q.queue.length : ℤ) = o.l1Count ∧ o.l1Count < o.config.numChains) ∨
        (o.config.numChains ≤ q.queue.length ∧ ∀ u ∈ q.queue, L2Output w u)))
  | .start _ _ | .crash | .cancel | .configure _ | .poll _ | .task _ _ => isTrue trivial

theorem BootInv.init (o : Options Hash) {s : Store Hash} {u : UTXO} (hs : s.loadAll = [u])
    (hstage : s.stage = none ∨ s.stage = some .none) (hpend : s.loadPending = []) :
    BootInv sdk o (World.init s) where
  inv := init_inv hpend (by rw [hs]; exact List.nodup_singleton _)
  shape _ := by
    have hfund : Funding o s := ⟨by rw [hs]; rfl, by rw [hpend]; simp⟩
    show Shape o s
    unfold Shape
    rcases hstage with h | h <;> rw [h] <;> exact Or.inl hfund
  params q hq := by cases hq
  point q hq := by cases hq

/-- **Chains start only after a complete L2 fanout.** In a run from a store with one
funding UTXO, in which the length of the queue never misleads a resuming bootstrap,
the first time bootstrap returns the store holds exactly one UTXO per chain, each an
output of an L2 fanout; and a bootstrap that resumes an interrupted L2 fanout with
other UTXOs left fans out again. -/
theorem chains_after_complete_fanout (hinj : Function.Injective sdk.txHash) {o : Options Hash}
    (ho : o.InRange) {s : Store Hash} {u : UTXO} (hs : s.loadAll = [u])
    (hstage : s.stage = none ∨ s.stage = some .none) (hpend : s.loadPending = [])
    {es : List (Event Hash)}
    (hes : Along (World.step sdk) (fun w e => Restarts o w e ∧ ResumeOK o w e ∧ NoChains w)
      (World.init s) es)
    (hf : Fresh sdk ((World.init s).run sdk es).imported ((World.init s).run sdk es).committed)
    {q : Proc Hash} (hq : ((World.init s).run sdk es).proc = some q) :
    (q.main = .chains → ((World.init s).run sdk es).store.stage = some .l2Done ∧
      Complete o ((World.init s).run sdk es)) ∧
    (q.main = .lock .l2Partial → ResumeOK o ((World.init s).run sdk es) (.main true) →
      (∃ v ∈ q.queue, ¬L2Output ((World.init s).run sdk es) v) →
      ∃ q', (((World.init s).run sdk es).step sdk (.main true)).proc = some q' ∧
        q'.main = .l2Start) := by
  have h : BootInv sdk o ((World.init s).run sdk es) :=
    Along.inv_of_later (F := fun w => Fresh sdk w.imported w.committed) (I := BootInv sdk o)
      (fun w e => Fresh.of_grows (step_grows w e))
      (fun _ _ h hC hf => h.step ho hinj hC.1 hC.2.1 hC.2.2 hf) hes
      (BootInv.init o hs hstage hpend) hf
  have hpar := h.params q hq
  refine ⟨fun hm => ?_, fun hm hr ⟨v, hv, hno⟩ => ?_⟩
  · have hpt := h.point q hq
    unfold Point at hpt
    rw [hm] at hpt
    exact hpt
  · rcases hr q hq hm with ⟨h1, h2⟩ | ⟨-, hall⟩
    · rw [step_main hq, World.mainStep, hm]
      refine ⟨_, rfl, ?_⟩
      dsimp only [dispatch, resumePartialL2]
      rw [hpar.numChains, hpar.l1Count, if_neg (by omega), if_pos h1]
    · exact absurd (hall v hv) hno

open Concrete

/-- Four chains over two L1 outputs: the L1 fanout and one L2 fanout are committed,
the other L2 fanout is rejected three times, and the process ends. The next one finds
three UTXOs at stage `l2Partial`. -/
def Concrete.halfFanout : List (Event Bytes) :=
  startup (options 7 4 2) 5 ++ succeed 0 ++ mains 2 ++ succeed 0 ++
    attempt 1 ++ attempt 1 ++ attempt 1 ++ mains 1 ++ [.crash] ++ startup (options 7 4 2) 5

/-- The world after `halfFanout`. -/
def Concrete.halfFannedOut : World Bytes := (World.init (funded 100000)).run plainSDK halfFanout

/-- It takes the three UTXOs for chains and runs them, one of them an L1 output. -/
theorem half_fanout_starts_chains :
    Along (World.step plainSDK) (fun w e => Restarts (options 7 4 2) w e ∧ NoChains w)
      (World.init (funded 100000)) halfFanout ∧
    halfFannedOut.proc.any (fun q => decide (q.main = .chains)) = true ∧
    halfFannedOut.store.loadAll.length = 3 ∧
    ∃ u ∈ halfFannedOut.store.loadAll, ¬L2Output halfFannedOut u := by
  refine ⟨(Along.of_forall ?_).and (D := fun w _ => NoChains w) (by decide +kernel),
    by decide +kernel, by decide +kernel, by decide +kernel⟩
  simp [halfFanout, startup, succeed, attempt, mains, Restarts]

/-- A crash among the L2 fanouts, which the next process makes again. -/
def Concrete.interruptedFanout : List (Event Bytes) :=
  startup (options 7 4 2) 5 ++ succeed 0 ++ mains 2 ++ attempt 0 ++ [.crash] ++
    startup (options 7 4 2) 5 ++ succeed 0 ++ succeed 1 ++ mains 1

theorem interrupted_fanout_completes :
    Complete (options 7 4 2) ((World.init (funded 100000)).run plainSDK interruptedFanout) := by
  have hend : ((World.init (funded 100000)).run plainSDK interruptedFanout).proc.any
      (fun q => decide (q.main = .chains)) = true := by
    decide +kernel
  obtain ⟨q, hq, hm⟩ := (Option.any_eq_true _ _).1 hend
  have hes : Along (World.step plainSDK) (Restarts (options 7 4 2)) (World.init (funded 100000))
      interruptedFanout :=
    Along.of_forall (by simp [interruptedFanout, startup, succeed, attempt, mains, Restarts])
  have hok : Along (World.step plainSDK) (fun w e => ResumeOK (options 7 4 2) w e ∧ NoChains w)
      (World.init (funded 100000)) interruptedFanout := by
    decide +kernel
  have h := chains_after_complete_fanout encTx_injective (by decide) (u := funding 0 100000)
    (by decide +kernel) (Or.inl rfl) (by decide +kernel) (hes.and hok) (by decide +kernel) hq
  exact (h.1 (of_decide_eq_true hm)).2

end TxGen
