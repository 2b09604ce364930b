import TxGen.Proof.Invariant

/-!
# Replaying the pending records

What a restart makes of a store: every stored UTXO stays, unless a pending record
spends it, in which case the outputs of that record worth something take its place
(`tips`). Committing a pending record does not change `tips`, so a replay may be
interrupted and taken up again, and it may apply the records in any order.
-/

namespace TxGen

open Lib
open scoped List

variable {Hash : Type} {sdk : SDK Hash}

/-- What a replay makes of the stored UTXO `u`. -/
def resumed (s : Store Hash) (u : UTXO) : List UTXO :=
  match s.loadPending.find? fun p => u ∈ p.spent with
  | some p => p.created.filter (·.value ≠ 0)
  | none => [u]

/-- What a replay makes of the stored UTXOs. -/
def tips (s : Store Hash) : List UTXO := s.loadAll.flatMap (resumed s)

/-- `replayPending` of the records `l`, in that order. -/
def replayAll (s : Store Hash) (l : List (PendingBroadcast Hash)) : Store Hash :=
  l.foldl (fun s p => s.commitPending p.txID p.spent p.created) s

section Tips

variable {s : Store Hash} {imported : List UTXO} {committed : List (PendingBroadcast Hash)}
  {p : PendingBroadcast Hash} {u : UTXO} {raw : RawTx Hash}

theorem resumed_of_pending (hL : Ledger sdk s imported committed) (hp : p ∈ s.loadPending)
    (hs : p.spent = [u]) : resumed s u = p.created.filter (·.value ≠ 0) := by
  have hfind : s.loadPending.find? (fun p => u ∈ p.spent) = some p := by
    cases hf : s.loadPending.find? (fun p => u ∈ p.spent) with
    | none =>
      have := List.find?_eq_none.1 hf p hp
      simp [hs] at this
    | some r =>
      have hr := List.mem_of_find?_eq_some hf
      have hur : u ∈ r.spent := by simpa using List.find?_some hf
      obtain ⟨v, raw, hb, -⟩ := hL.pending_built r hr
      rw [hb.spent, List.mem_singleton] at hur
      rw [hL.pending_inj r hr p hp (by rw [hb.spent, hs, hur])]
  rw [resumed, hfind]

theorem resumed_of_not_pending (h : ∀ p ∈ s.loadPending, u ∉ p.spent) : resumed s u = [u] := by
  have hfind : s.loadPending.find? (fun p => u ∈ p.spent) = none := by
    rw [List.find?_eq_none]
    intro p hp
    simpa using h p hp
  rw [resumed, hfind]

theorem tips_of_no_pending (h : s.loadPending = []) : tips s = s.loadAll :=
  flatMap_eq_self fun u _ => resumed_of_not_pending fun p hp => by rw [h] at hp; cases hp

/-- **Committing a pending record leaves the tips as they are.** -/
theorem tips_commit (hL : Ledger sdk s imported committed) (hinj : Function.Injective sdk.txHash)
    (hf : Fresh sdk imported (committed ++ [p])) (hp : p ∈ s.loadPending) :
    tips (s.commitPending p.txID p.spent p.created) ~ tips s := by
  obtain ⟨u, raw, hb, hu⟩ := hL.pending_built p hp
  have hid := hL.pending_txID p hp
  set s' := s.commitPending p.txID p.spent p.created
  set new := p.created.filter (·.value ≠ 0)
  have hpend : ∀ r, r ∈ s'.loadPending ↔ r.txID ≠ p.txID ∧ r ∈ s.loadPending :=
    fun r => Store.mem_commitPending_pending hid
  have hL' : Ledger sdk s' imported (committed ++ [p]) := by
    refine hL.commit hinj hf hb hu hid fun r hr hs => ?_
    rw [hL.pending_inj r hr p hp (by rw [hs, hb.spent])]
  have hstored : ∀ x ∈ s.loadAll, x ∉ new := fun x hx hn =>
    hL.created_new hinj hf hb hu (List.mem_of_mem_filter hn) (hL.known_of_stored hx) rfl
  -- what becomes of a UTXO, before and after the commit
  set g : UTXO → List UTXO := fun x => if x ∈ new then [x] else resumed s x
  have hold : ∀ x ∈ s.loadAll, g x = resumed s x := fun x hx => if_neg (hstored x hx)
  have hnew : ∀ x ∈ new, g x = [x] := fun x hx => if_pos hx
  have hafter : ∀ x ∈ s'.loadAll, g x = resumed s' x := by
    intro x hx
    obtain ⟨hxu, hx⟩ := (hL.mem_commit hinj hf hb hu).1 hx
    by_cases hn : x ∈ new
    · rw [hnew x hn]
      refine (resumed_of_not_pending fun r hr hxr => ?_).symm
      obtain ⟨v, raw', hbr, hv⟩ := hL.pending_built r ((hpend r).1 hr).2
      rw [hbr.spent, List.mem_singleton] at hxr
      exact hstored v hv (hxr ▸ hn)
    · have hxs : x ∈ s.loadAll := by
        refine hx.resolve_left fun hc => hn (List.mem_filter.2 ⟨hc.1, by simpa using hc.2⟩)
      rw [hold x hxs]
      by_cases hr : ∃ r ∈ s.loadPending, r.spent = [x]
      · obtain ⟨r, hr, hrs⟩ := hr
        have hr' : r ∈ s'.loadPending := by
          refine (hpend r).2 ⟨fun he => ?_, hr⟩
          rw [Store.eq_of_txID hr hp he, hb.spent] at hrs
          exact hxu (List.singleton_inj.1 hrs).symm
        rw [resumed_of_pending hL hr hrs, resumed_of_pending hL' hr' hrs]
      · have hno : ∀ r ∈ s.loadPending, x ∉ r.spent := by
          intro r hrm hxr
          obtain ⟨v, raw', hbr, -⟩ := hL.pending_built r hrm
          rw [hbr.spent, List.mem_singleton] at hxr
          exact hr ⟨r, hrm, by rw [hbr.spent, hxr]⟩
        rw [resumed_of_not_pending hno, resumed_of_not_pending fun r hr => hno r ((hpend r).1 hr).2]
  have hperm := (hL.commit_loadAll hinj hf hb hu).flatMap_right g
  rw [List.flatMap_cons, List.flatMap_append, hold u hu, resumed_of_pending hL hp hb.spent] at hperm
  have h1 : s'.loadAll.flatMap g = tips s' := List.flatMap_congr hafter
  have h2 : s.loadAll.flatMap g = tips s := List.flatMap_congr hold
  have h3 : new.flatMap g = new := flatMap_eq_self hnew
  rw [h1, h2, h3] at hperm
  exact (List.perm_append_left_iff _).1 hperm

/-- **A replay of all pending records** leaves none, and turns the stored UTXOs into
the tips. -/
theorem replayAll_spec (hL : Ledger sdk s imported committed) (hinj : Function.Injective sdk.txHash)
    {l : List (PendingBroadcast Hash)} (hl : l ~ s.loadPending)
    (hf : Fresh sdk imported (committed ++ l)) :
    (replayAll s l).loadPending = [] ∧ (replayAll s l).loadAll ~ tips s ∧
      (replayAll s l).stage = s.stage := by
  induction l generalizing s committed with
  | nil =>
    have h0 := hl.symm.eq_nil
    refine ⟨h0, ?_, rfl⟩
    rw [tips_of_no_pending h0]
    rfl
  | cons p l ih =>
    have hp : p ∈ s.loadPending := hl.mem_iff.1 List.mem_cons_self
    have hid := hL.pending_txID p hp
    obtain ⟨u, raw, hb, hu⟩ := hL.pending_built p hp
    have hf1 : Fresh sdk imported (committed ++ [p]) := by
      intro v hv r hr
      refine hf v hv r ?_
      simp only [List.mem_append, List.mem_cons, List.not_mem_nil, or_false] at hr ⊢
      tauto
    have hL' := hL.commit hinj hf1 hb hu hid fun r hr hs => by
      rw [hL.pending_inj r hr p hp (by rw [hs, hb.spent])]
    have hl' : l ~ (s.commitPending p.txID p.spent p.created).loadPending := by
      have herase : (s.commitPending p.txID p.spent p.created).loadPending =
          (s.pending.erase p.txID).values := by
        simp only [Store.commitPending, if_neg hid]
        rfl
      rw [herase]
      exact (hl.trans (Table.values_erase hp)).cons_inv
    obtain ⟨h1, h2, h3⟩ := ih hL' hl' (by rw [List.append_assoc]; exact hf)
    exact ⟨h1, h2.trans (tips_commit hL hinj hf1 hp), h3⟩

/-- **The order of a replay does not matter.** -/
theorem replayAll_perm (hL : Ledger sdk s imported committed) (hinj : Function.Injective sdk.txHash)
    {l l' : List (PendingBroadcast Hash)} (hl : l ~ s.loadPending) (hl' : l' ~ s.loadPending)
    (hf : Fresh sdk imported (committed ++ l)) : replayAll s l = replayAll s l' := by
  have hf' : Fresh sdk imported (committed ++ l') := by
    intro v hv r hr
    refine hf v hv r ?_
    rcases List.mem_append.1 hr with hr | hr
    · exact List.mem_append_left _ hr
    · exact List.mem_append_right _ ((hl'.trans hl.symm).mem_iff.1 hr)
  obtain ⟨h1, h2, h3⟩ := replayAll_spec hL hinj hl hf
  obtain ⟨h1', h2', h3'⟩ := replayAll_spec hL hinj hl' hf'
  exact Store.ext_mem (h2.trans h2'.symm) (by rw [h1, h1']) (by rw [h3, h3'])

end Tips

/-! ## `New` returns -/

/-- The events of `n` steps of the main goroutine whose store writes succeed. -/
def mainSteps (Hash : Type) (n : ℕ) : List (Event Hash) := List.replicate n (.main true)

/-- The main goroutine gets to the end of `New`. -/
def Restored (sdk : SDK Hash) (w : World Hash) : Prop :=
  ∃ n q, (w.run sdk (mainSteps Hash n)).proc = some q ∧ q.main = .ready

theorem Restored.of_step {w : World Hash} (h : Restored sdk (w.step sdk (.main true))) :
    Restored sdk w := by
  obtain ⟨n, q, hq, hm⟩ := h
  exact ⟨n + 1, q, hq, hm⟩

theorem replay_restored (rest : List (PendingBroadcast Hash)) {w : World Hash} {q : Proc Hash}
    {changed : Bool} {unknown : ℕ} (hq : w.proc = some q) (hm : q.main = .replay rest changed unknown) :
    Restored sdk w := by
  induction rest generalizing w q changed unknown with
  | nil =>
    apply Restored.of_step
    rw [step_main hq]
    unfold World.mainStep
    rw [hm]
    dsimp only
    split_ifs
    · exact ⟨0, _, rfl, rfl⟩
    · exact ⟨0, _, rfl, rfl⟩
  | cons p rest ih =>
    apply Restored.of_step
    rw [step_main hq]
    unfold World.mainStep
    rw [hm]
    dsimp only
    rw [if_pos rfl]
    split_ifs
    · exact ih rfl rfl
    · cases hst : p.stage with
      | none => exact ih rfl rfl
      | some st =>
        apply Restored.of_step
        exact ih rfl rfl

/-- **A process that starts gets to the end of `New`** when its store writes succeed. -/
theorem start_restored {w : World Hash} {q : Proc Hash} (hq : w.proc = some q) {rest : List UTXO}
    (hm : q.main = .persist rest) : Restored sdk w := by
  induction rest generalizing w q with
  | nil =>
    apply Restored.of_step
    rw [step_main hq]
    unfold World.mainStep
    rw [hm]
    exact replay_restored _ rfl rfl
  | cons u rest ih =>
    apply Restored.of_step
    rw [step_main hq]
    unfold World.mainStep
    rw [hm]
    exact ih rfl rfl

end TxGen
