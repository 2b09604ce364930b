import Mathlib.Algebra.Order.Floor.Div
import TxGen.Proof.Concrete
import TxGen.Proof.Funding
import TxGen.Proof.Steps

/-!
# One chain

`runChain` seen from how its calls of `Broadcast` end (`ChainRun`): it hands the sustain
hop of its tip to `Broadcast` until that is accepted, and goes on with the output,
until the output is worth nothing. The goroutine of the engine does the same when no
store write fails (`ChainRun.makesAttempts`), so that what is proved of the attempts
holds of the transactions sent: a chain makes `⌈value / fee⌉` accepted hops, each on the
output of the one before, and leaves none of its outputs in the store (`chain_length`).
-/

namespace TxGen

open Lib
open scoped List

variable {Hash : Type} {sdk : SDK Hash}

/-! ## The attempts of a chain -/

/-- What a chain goes on with after its hop `p` is accepted, if anything. -/
def PendingBroadcast.next (p : PendingBroadcast Hash) : Option UTXO :=
  p.created.head?.filter (·.value ≠ 0)

/-- A tip a chain can go on with: worth something, with a txid the SDK reads. -/
structure Spendable (sdk : SDK Hash) (u : UTXO) : Prop where
  value : 0 < u.value
  parsed : Parsed sdk u

/-- What a chain hands to `Broadcast`: from the tip, and how its calls of `Broadcast` end,
to the transactions with how each call ended and the tip then. The tip is `none` when
the chain has ended. -/
inductive ChainRun (sdk : SDK Hash) (m : Mode Hash) : Option UTXO → List Outcome →
    List (PendingBroadcast Hash × Outcome) → Option UTXO → Prop
  | ended (os : List Outcome) : ChainRun sdk m none os [] none
  | pause (u : UTXO) (hu : Spendable sdk u) : ChainRun sdk m (some u) [] [] (some u)
  /-- a failed broadcast is retried with the same UTXO -/
  | retry (u : UTXO) (p : PendingBroadcast Hash) (o : Outcome) (os : List Outcome)
      (as : List (PendingBroadcast Hash × Outcome)) (tip : Option UTXO) (hu : Spendable sdk u)
      (hb : sustainPending sdk u m = .ok p) (ho : o ≠ .accepted)
      (h : ChainRun sdk m (some u) os as tip) :
      ChainRun sdk m (some u) (o :: os) ((p, o) :: as) tip
  | hop (u : UTXO) (p : PendingBroadcast Hash) (os : List Outcome)
      (as : List (PendingBroadcast Hash × Outcome)) (tip : Option UTXO) (hu : Spendable sdk u)
      (hb : sustainPending sdk u m = .ok p) (h : ChainRun sdk m p.next os as tip) :
      ChainRun sdk m (some u) (.accepted :: os) ((p, .accepted) :: as) tip

/-- The accepted ones of some attempts. -/
def accepted (as : List (PendingBroadcast Hash × Outcome)) : List (PendingBroadcast Hash) :=
  (as.filter (·.2 = .accepted)).map Prod.fst

/-- The hops a chain with this tip can still make. -/
def hopsOf (m : Mode Hash) (tip : Option UTXO) : ℕ := (tip.map fun u => m.hopsLeft u.value).getD 0

/-- The value a chain with this tip has left. -/
def valueOf (tip : Option UTXO) : ℕ := (tip.map UTXO.value).getD 0

section Hop

variable {m : Mode Hash} {u : UTXO} {p : PendingBroadcast Hash} {o : Outcome}

theorem accepted_hop (p : PendingBroadcast Hash) (as : List (PendingBroadcast Hash × Outcome)) :
    accepted ((p, .accepted) :: as) = p :: accepted as := rfl

theorem accepted_retry (ho : o ≠ .accepted) (as : List (PendingBroadcast Hash × Outcome)) :
    accepted ((p, o) :: as) = accepted as := by
  simp [accepted, ho]

/-- **One hop.** It spends the tip into one output worth the fee less, which is the next
tip unless it is worth nothing. -/
theorem hop_cases (hb : sustainPending sdk u m = .ok p) :
    ∃ c, p.spent = [u] ∧ p.created = [c] ∧ c.value = u.value - m.sustainFee ∧
      ((c.value = 0 ∧ p.next = none) ∨ (p.next = some c ∧ Spendable sdk c)) := by
  obtain ⟨⟨raw, hraw⟩, -, c, hc, hval⟩ := sustainPending_ok hb
  refine ⟨c, hraw.spent, hc, hval, ?_⟩
  unfold PendingBroadcast.next
  by_cases h0 : c.value = 0
  · exact Or.inl ⟨h0, by simp [hc, h0]⟩
  · exact Or.inr ⟨by simp [hc, h0], Nat.pos_of_ne_zero h0,
      hraw.parsed (by rw [hc]; exact List.mem_singleton_self c)⟩

theorem hopsOf_next (hu : Spendable sdk u) (hb : sustainPending sdk u m = .ok p) :
    hopsOf m (some u) = hopsOf m p.next + 1 := by
  obtain ⟨c, -, -, hval, ⟨h0, hn⟩ | ⟨hn, -⟩⟩ := hop_cases hb
  · rw [hn]
    show m.hopsLeft u.value = 0 + 1
    rw [m.hopsLeft_sub hu.value, ← hval, h0, m.hopsLeft_zero]
  · rw [hn]
    show m.hopsLeft u.value = m.hopsLeft c.value + 1
    rw [m.hopsLeft_sub hu.value, hval]

theorem fee_add_valueOf_next (hb : sustainPending sdk u m = .ok p) :
    p.fee + valueOf p.next = u.value := by
  obtain ⟨c, hs, hc, hval, hnext⟩ := hop_cases hb
  have hfee : p.fee = u.value - c.value := by simp [PendingBroadcast.fee, hs, hc, total]
  have hle : c.value ≤ u.value := by omega
  rcases hnext with ⟨h0, hn⟩ | ⟨hn, -⟩
  · rw [hfee, hn, h0]
    rfl
  · rw [hfee, hn]
    show u.value - c.value + c.value = u.value
    omega

theorem txID_ne_nil (hid : ∀ raw, sdk.txID raw ≠ []) (hb : sustainPending sdk u m = .ok p) :
    p.txID ≠ [] := by
  obtain ⟨raw, hraw⟩ := (sustainPending_ok hb).1
  rw [hraw.txID]
  exact hid raw

end Hop

/-- Whatever the outcomes, a chain makes its attempts. -/
theorem exists_chainRun {m : Mode Hash} (hm : m.Signs) {u : UTXO} (hu : Spendable sdk u)
    (os : List Outcome) : ∃ as tip, ChainRun sdk m (some u) os as tip := by
  induction os generalizing u with
  | nil => exact ⟨[], some u, .pause u hu⟩
  | cons o os ih =>
    obtain ⟨p, hb⟩ := sustainPending_of_parsed hm hu.parsed hu.value
    by_cases ho : o = .accepted
    · subst ho
      obtain ⟨c, -, -, -, ⟨-, hn⟩ | ⟨hn, hc⟩⟩ := hop_cases hb
      · exact ⟨_, none, .hop u p os [] none hu hb (by rw [hn]; exact .ended os)⟩
      · obtain ⟨as, tip, h⟩ := ih hc
        exact ⟨_, tip, .hop u p os as tip hu hb (by rw [hn]; exact h)⟩
    · obtain ⟨as, tip, h⟩ := ih hu
      exact ⟨_, tip, .retry u p o os as tip hu hb ho h⟩

namespace ChainRun

variable {m : Mode Hash} {u : UTXO} {tip tip' : Option UTXO} {os : List Outcome}
  {as : List (PendingBroadcast Hash × Outcome)}

/-- The attempts end as the calls of `Broadcast` do, one after the other. -/
theorem outcomes (h : ChainRun sdk m tip os as tip') : as.map Prod.snd <+: os := by
  induction h with
  | ended os => exact List.nil_prefix
  | pause u hu => exact List.nil_prefix
  | retry u p o os as tip hu hb ho h ih => exact List.cons_prefix_cons.2 ⟨rfl, ih⟩
  | hop u p os as tip hu hb h ih => exact List.cons_prefix_cons.2 ⟨rfl, ih⟩

/-- Every attempt is a transaction that spends a UTXO into the next one. -/
theorem built (h : ChainRun sdk m tip os as tip') :
    ∀ a ∈ as, ∃ v raw, Built sdk a.1 v raw := by
  induction h with
  | ended os => simp
  | pause u hu => simp
  | retry u p o os as tip hu hb ho h ih | hop u p os as tip hu hb h ih =>
    obtain ⟨raw, hraw⟩ := (sustainPending_ok hb).1
    exact List.forall_mem_cons.2 ⟨⟨_, raw, hraw⟩, ih⟩

/-- A chain makes a hop for each accepted broadcast, until it has made them all. -/
theorem length_accepted (h : ChainRun sdk m tip os as tip') :
    (accepted as).length = min (hopsOf m tip) (os.count .accepted) := by
  induction h with
  | ended os => simp [accepted, hopsOf]
  | pause u hu => simp [accepted]
  | retry u p o os as tip hu hb ho h ih => rw [accepted_retry ho, ih, List.count_cons_of_ne ho]
  | hop u p os as tip hu hb h ih =>
    rw [accepted_hop, List.length_cons, ih, List.count_cons_self, hopsOf_next hu hb]
    omega

/-- A chain has ended exactly when as many broadcasts are accepted as it has hops. -/
theorem ended_iff (h : ChainRun sdk m tip os as tip') :
    tip' = none ↔ hopsOf m tip ≤ os.count .accepted := by
  induction h with
  | ended os => simp [hopsOf]
  | pause u hu =>
    have hsub := m.hopsLeft_sub hu.value
    simp [hopsOf, hsub]
  | retry u p o os as tip hu hb ho h ih => rw [ih, List.count_cons_of_ne ho]
  | hop u p os as tip hu hb h ih =>
    rw [ih, List.count_cons_self, hopsOf_next hu hb]
    omega

/-- Each accepted transaction spends the output of the one accepted before it. -/
theorem linked (h : ChainRun sdk m tip os as tip') :
    (accepted as).map PendingBroadcast.spent <+:
      tip.toList.map (fun u => [u]) ++ (accepted as).map PendingBroadcast.created := by
  induction h with
  | ended os => exact List.nil_prefix
  | pause u hu => exact List.nil_prefix
  | retry u p o os as tip hu hb ho h ih =>
    rw [accepted_retry ho]
    exact ih
  | hop u p os as tip hu hb h ih =>
    obtain ⟨c, hs, hc, -, hnext⟩ := hop_cases hb
    rw [accepted_hop, List.map_cons, List.map_cons, hs, hc]
    refine List.cons_prefix_cons.2 ⟨rfl, ?_⟩
    rcases hnext with ⟨-, hn⟩ | ⟨hn, -⟩
    · -- the chain ends here
      rw [hn] at h
      cases h
      exact List.nil_prefix
    · rw [hn] at ih
      exact ih

/-- The first attempt is the hop of the tip. -/
theorem head (h : ChainRun sdk m (some u) os as tip') {p : PendingBroadcast Hash}
    (hb : sustainPending sdk u m = .ok p) : ∀ a ∈ as.head?, a.1 = p := by
  cases h with
  | pause => simp
  | retry _ p' o os as tip hu hb' | hop _ p' os as tip hu hb' =>
    rw [hb] at hb'
    cases hb'
    simp

/-- Between two acceptances a chain sends one transaction. -/
theorem retried (h : ChainRun sdk m tip os as tip') :
    as.IsChain fun a b => a.2 ≠ .accepted → b.1 = a.1 := by
  induction h with
  | ended os => exact List.isChain_nil
  | pause u hu => exact List.isChain_nil
  | retry u p o os as tip hu hb ho h ih => exact List.isChain_cons.2 ⟨fun b hb' _ => h.head hb b hb', ih⟩
  | hop u p os as tip hu hb h ih => exact List.isChain_cons.2 ⟨fun b _ hne => absurd rfl hne, ih⟩

/-- The fees of an ended chain are all its value. -/
theorem fees (h : ChainRun sdk m tip os as tip') (hend : tip' = none) :
    ((accepted as).map PendingBroadcast.fee).sum = valueOf tip := by
  induction h with
  | ended os => rfl
  | pause u hu => cases hend
  | retry u p o os as tip hu hb ho h ih => rw [accepted_retry ho, ih hend]
  | hop u p os as tip hu hb h ih =>
    rw [accepted_hop, List.map_cons, List.sum_cons, ih hend]
    exact fee_add_valueOf_next hb

/-- A chain that has ended has spent the tip it started from. -/
theorem spends_tip (h : ChainRun sdk m (some u) os as tip') (hend : tip' = none) :
    ∃ p ∈ accepted as, p.spent = [u] := by
  generalize htip : some u = tip at h
  induction h with
  | ended os => cases htip
  | pause v hv => cases hend
  | retry v p o os as tip hv hb ho h ih =>
    rw [accepted_retry ho]
    exact ih hend htip
  | hop v p os as tip hv hb h ih =>
    cases htip
    obtain ⟨c, hs, -⟩ := hop_cases hb
    exact ⟨p, List.mem_cons_self, hs⟩

/-- A chain that has ended has spent its outputs, but for the last, which is worth
nothing. -/
theorem spends_outputs (h : ChainRun sdk m tip os as tip') (hend : tip' = none) :
    ∀ p ∈ accepted as, ∀ c ∈ p.created, c.value ≠ 0 → ∃ p' ∈ accepted as, p'.spent = [c] := by
  induction h with
  | ended os => simp [accepted]
  | pause u hu => cases hend
  | retry u p o os as tip hu hb ho h ih =>
    rw [accepted_retry ho]
    exact ih hend
  | hop u p os as tip hu hb h ih =>
    rw [accepted_hop]
    intro r hr c hc h0
    rcases List.mem_cons.1 hr with rfl | hr
    · obtain ⟨d, -, hd, -, hnext⟩ := hop_cases hb
      rw [hd, List.mem_singleton] at hc
      subst hc
      rcases hnext with ⟨hd0, -⟩ | ⟨hn, -⟩
      · exact absurd hd0 h0
      · rw [hn] at h
        obtain ⟨p', hp', hs'⟩ := h.spends_tip hend
        exact ⟨p', List.mem_cons_of_mem _ hp', hs'⟩
    · obtain ⟨p', hp', hs'⟩ := ih hend r hr c hc h0
      exact ⟨p', List.mem_cons_of_mem _ hp', hs'⟩

/-- A chain ends with an accepted broadcast. -/
theorem last (h : ChainRun sdk m tip os as tip') (htip : tip ≠ none) (hend : tip' = none) :
    as.getLast?.map Prod.snd = some .accepted := by
  induction h with
  | ended os => exact absurd rfl htip
  | pause u hu => cases hend
  | retry u p o os as tip hu hb ho h ih =>
    obtain ⟨a, ha, hacc⟩ := Option.map_eq_some_iff.1 (ih htip hend)
    rw [List.getLast?_cons, ha]
    exact congrArg some hacc
  | hop u p os as tip hu hb h ih =>
    cases hn : p.next with
    | none =>
      -- the last hop: no attempt comes after it
      rw [hn] at h
      cases h
      rfl
    | some c =>
      obtain ⟨a, ha, hacc⟩ := Option.map_eq_some_iff.1 (ih (by simp [hn]) hend)
      rw [List.getLast?_cons, ha]
      exact congrArg some hacc

end ChainRun

/-! ## The goroutine of a chain -/

/-- The steps of goroutine `i` in a round of `runChain` in which no store write fails:
`Broadcast` ends as `a` says, and the record is written at the time `a` says. -/
def chainRound (i : ℕ) (a : Outcome × ℕ) : List (Event Hash) :=
  [.task i (.save true a.2), .task i (.broadcast a.1),
    .task i (if a.1 = .accepted then .commit true else .clear true)]

/-- Some rounds. -/
def chainRounds (i : ℕ) (os : List (Outcome × ℕ)) : List (Event Hash) := os.flatMap (chainRound i)

/-- The goroutine is a chain with this tip, between two rounds. -/
def Task.HasTip (t : Task Hash) (tip : Option UTXO) : Prop :=
  t.kind = .sustain ∧
    match tip with
    | some u => t.utxo = u ∧ t.pc = .wait
    | none => t.pc = .done []

section Rounds

variable {w : World Hash} {q : Proc Hash} {i : ℕ} {t : Task Hash} {u : UTXO}
  {p : PendingBroadcast Hash}

/-- The store of a hop committed on the store `s`. -/
theorem mem_commit_hop {s : Store Hash} {txid : Bytes} {c v : UTXO} :
    v ∈ (s.commitPending txid [u] [c]).loadAll ↔
      (c.value ≠ 0 ∧ v = c) ∨
        (v ∈ s.loadAll ∧ v.key ≠ u.key ∧ (c.value ≠ 0 → v.key ≠ c.key)) := by
  show v ∈ (if c.value = 0 then s.utxos.erase u.key else (s.utxos.erase u.key).insert c).values ↔ _
  split_ifs with h0
  · rw [Table.mem_erase]
    simp [h0, and_comm, Store.loadAll]
  · rw [Table.mem_insert, Table.mem_erase]
    simp [h0, Store.loadAll]
    tauto

theorem run_step_task (hq : w.proc = some q) (e : TaskEvent) (es : List (Event Hash)) :
    w.run sdk (.task i e :: es) = (w.taskStep sdk q i e).run sdk es := by
  show (w.step sdk (.task i e)).run sdk es = _
  rw [step_task hq]

theorem taskStep_save (hi : q.tasks[i]? = some t) (hpc : t.pc = .wait)
    (hb : t.build sdk q.mode = .ok p) (hid : p.txID ≠ []) (savedAt : ℕ) :
    w.taskStep sdk q i (.save true savedAt) =
      { w with store := w.store.savePending { p with savedAt } }.setProc
        { q with tasks := q.tasks.set i { t with pc := .saved p } } := by
  simp only [World.taskStep, hi, hpc, World.taskSave, hb]
  rw [if_pos ⟨trivial, hid⟩]
  rfl

theorem taskStep_broadcast (hi : q.tasks[i]? = some t) (hpc : t.pc = .saved p) (o : Outcome) :
    w.taskStep sdk q i (.broadcast o) = w.taskBroadcast q i t p o := by
  simp only [World.taskStep, hi, hpc]

theorem taskStep_clear (hi : q.tasks[i]? = some t) (hpc : t.pc = .rejected p)
    (hk : t.kind = .sustain) :
    w.taskStep sdk q i (.clear true) =
      { w with store := w.store.clearPending p.txID }.setProc
        { q with tasks := q.tasks.set i { t with pc := .wait } } := by
  simp only [World.taskStep, hi, hpc, World.taskClear]
  rw [if_pos hk]
  rfl

theorem taskStep_commit (hi : q.tasks[i]? = some t) (hpc : t.pc = .accepted p) :
    w.taskStep sdk q i (.commit true) =
      (w.commit p).setProc { q with tasks := q.tasks.set i (t.afterCommit p) } := by
  simp only [World.taskStep, hi, hpc, World.taskCommit]
  rfl

/-- After the commit of a hop the chain stands at the next tip. -/
theorem hasTip_afterCommit (hk : t.kind = .sustain) (hb : sustainPending sdk u q.mode = .ok p) :
    (t.afterCommit p).HasTip p.next := by
  obtain ⟨c, -, hc, -, ⟨h0, hn⟩ | ⟨hn, hv⟩⟩ := hop_cases hb
  · simp only [Task.afterCommit, hk, hc, h0, hn, if_true]
    exact ⟨rfl, rfl⟩
  · have h0 := hv.value.ne'
    simp only [Task.afterCommit, hk, hc, h0, hn, if_true, if_false]
    exact ⟨rfl, rfl, rfl⟩

/-- **One round of a chain.** -/
theorem run_chainRound (hq : w.proc = some q) (hi : q.tasks[i]? = some t)
    (ht : t.HasTip (some u)) (hb : sustainPending sdk u q.mode = .ok p) (hid : p.txID ≠ [])
    (o : Outcome) (savedAt : ℕ) :
    ∃ w' t', w.run sdk (chainRound i (o, savedAt)) = w' ∧
      w'.proc = some { q with tasks := q.tasks.set i t' } ∧
      t'.HasTip (if o = .accepted then p.next else some u) ∧
      w'.life = w.life ∧ w'.sent = w.sent ++ [(w.life, p)] ∧
      w'.store.loadAll =
        if o = .accepted then (w.store.commitPending p.txID p.spent p.created).loadAll
        else w.store.loadAll := by
  obtain ⟨hk, rfl, hpc⟩ := ht
  have hbuild : t.build sdk q.mode = .ok p := by rw [Task.build, hk]; exact hb
  have hilt : i < q.tasks.length := (List.getElem?_eq_some_iff.1 hi).1
  have hset : ∀ t' : Task Hash, (q.tasks.set i t')[i]? = some t' :=
    fun t' => List.getElem?_set_self hilt
  -- the first two steps are the same for every outcome
  rw [chainRound, run_step_task hq, taskStep_save hi hpc hbuild hid, run_step_task rfl,
    taskStep_broadcast (hset _) rfl, World.taskBroadcast, World.setTask, run_step_task rfl]
  dsimp only
  rw [List.set_set]
  by_cases ho : o = .accepted
  · subst ho
    rw [if_pos rfl, if_pos rfl, if_pos rfl, if_pos rfl, taskStep_commit (hset _) rfl]
    dsimp only
    rw [List.set_set]
    exact ⟨_, _, rfl, rfl, hasTip_afterCommit hk hb, rfl, rfl, rfl⟩
  · rw [if_neg ho, if_neg ho, if_neg ho, if_neg ho, taskStep_clear (hset _) rfl (by exact hk)]
    dsimp only
    rw [List.set_set]
    exact ⟨_, _, rfl, rfl, ⟨hk, rfl, rfl⟩, rfl, rfl, rfl⟩

/-- Nothing happens to a chain that has ended. -/
theorem run_chainRounds_ended (hq : w.proc = some q) (hi : q.tasks[i]? = some t)
    (ht : t.HasTip none) (os : List (Outcome × ℕ)) : w.run sdk (chainRounds i os) = w := by
  have hstep : ∀ e : TaskEvent, w.step sdk (.task i e) = w := by
    intro e
    rcases taskStep_effect sdk w q i e with h | ⟨t₀, w', queue, t', hi₀, heff, -⟩
    · rw [step_task hq, h]
    · rw [hi] at hi₀
      cases hi₀
      have := heff.not_ended
      rw [Task.ended, ht.2] at this
      cases this
  induction os with
  | nil => rfl
  | cons a os ih =>
    show ((((w.step sdk _).step sdk _).step sdk _)).run sdk (chainRounds i os) = w
    rw [hstep, hstep, hstep, ih]

/-- The rounds `os` of goroutine `i` of process `q` make the attempts `as` and leave the
chain with tip `tip`; when it has ended, what its transactions spend is no longer
stored, and nothing else has changed. -/
def MakesAttempts (sdk : SDK Hash) (i : ℕ) (w : World Hash) (q : Proc Hash)
    (os : List (Outcome × ℕ)) (as : List (PendingBroadcast Hash × Outcome)) (tip : Option UTXO) :
    Prop :=
  ∃ w' t', w.run sdk (chainRounds i os) = w' ∧
    w'.proc = some { q with tasks := q.tasks.set i t' } ∧ t'.HasTip tip ∧
    w'.sent = w.sent ++ as.map (fun a => (w.life, a.1)) ∧
    (tip = none → ∀ v, v ∈ w'.store.loadAll ↔
      v ∈ w.store.loadAll ∧ ∀ p ∈ accepted as, ∀ x ∈ p.spent, v.key ≠ x.key)

/-- No rounds, or a chain that has ended. -/
theorem MakesAttempts.nil {os : List (Outcome × ℕ)} {tip : Option UTXO}
    (hrun : w.run sdk (chainRounds i os) = w) (hq : w.proc = some q) (hi : q.tasks[i]? = some t)
    (ht : t.HasTip tip) : MakesAttempts sdk i w q os [] tip := by
  refine ⟨w, t, hrun, ?_, ht, by simp, fun _ v => by simp [accepted]⟩
  rw [set_of_getElem? hi]
  exact hq

/-- One round, and the rounds after it. -/
theorem MakesAttempts.cons {w₁ : World Hash} {t₁ : Task Hash} {a : Outcome × ℕ}
    {os : List (Outcome × ℕ)} {as : List (PendingBroadcast Hash × Outcome)} {tip : Option UTXO}
    (hw₁ : w.run sdk (chainRound i a) = w₁) (hlife : w₁.life = w.life)
    (hsent : w₁.sent = w.sent ++ [(w.life, p)])
    (h : MakesAttempts sdk i w₁ { q with tasks := q.tasks.set i t₁ } os as tip)
    (hstore : tip = none → ∀ v,
      (v ∈ w₁.store.loadAll ∧ ∀ p ∈ accepted as, ∀ x ∈ p.spent, v.key ≠ x.key) ↔
        v ∈ w.store.loadAll ∧ ∀ p' ∈ accepted ((p, a.1) :: as), ∀ x ∈ p'.spent, v.key ≠ x.key) :
    MakesAttempts sdk i w q (a :: os) ((p, a.1) :: as) tip := by
  obtain ⟨w', t', hw', hp', ht', hsent', hstore'⟩ := h
  refine ⟨w', t', ?_, ?_, ht', ?_, fun htip v => (hstore' htip v).trans (hstore htip v)⟩
  · rw [chainRounds, List.flatMap_cons, World.run, run_append]
    show (w.run sdk (chainRound i a)).run sdk (chainRounds i os) = w'
    rw [hw₁, hw']
  · rw [hp']
    simp only [List.set_set]
  · rw [hsent', hsent, hlife, List.append_assoc]
    rfl

/-- **A chain of the engine makes the attempts of `ChainRun`.** -/
theorem ChainRun.makesAttempts {m : Mode Hash} {tip tip' : Option UTXO} {os : List (Outcome × ℕ)}
    {as : List (PendingBroadcast Hash × Outcome)} (hid : ∀ raw, sdk.txID raw ≠ [])
    (h : ChainRun sdk m tip (os.map Prod.fst) as tip') (hm : q.mode = m) (hq : w.proc = some q)
    (hi : q.tasks[i]? = some t) (ht : t.HasTip tip) : MakesAttempts sdk i w q os as tip' := by
  generalize hos : os.map Prod.fst = os₀ at h
  -- induction over the attempts; the times of the writes go along
  induction h generalizing w q t os with
  | ended os₀ => exact .nil (run_chainRounds_ended hq hi ht os) hq hi ht
  | pause u hu =>
    rw [List.map_eq_nil_iff] at hos
    subst hos
    exact .nil rfl hq hi ht
  | retry u p o os₀ as tip hu hb ho h ih =>
    obtain ⟨⟨o', savedAt⟩, os, rfl, rfl, hrest⟩ := List.map_eq_cons_iff.1 hos
    have hilt : i < q.tasks.length := (List.getElem?_eq_some_iff.1 hi).1
    obtain ⟨w₁, t₁, hw₁, hp₁, ht₁, hlife, hsent, hall⟩ :=
      run_chainRound hq hi ht (hm ▸ hb) (txID_ne_nil hid hb) o' savedAt
    rw [if_neg ho] at ht₁ hall
    refine .cons hw₁ hlife hsent (ih hm hp₁ (List.getElem?_set_self hilt) ht₁ hrest) fun _ v => ?_
    rw [hall, accepted_retry ho]
  | hop u p os₀ as tip hu hb h ih =>
    obtain ⟨⟨o', savedAt⟩, os, rfl, rfl, hrest⟩ := List.map_eq_cons_iff.1 hos
    have hilt : i < q.tasks.length := (List.getElem?_eq_some_iff.1 hi).1
    obtain ⟨w₁, t₁, hw₁, hp₁, ht₁, hlife, hsent, hall⟩ :=
      run_chainRound hq hi ht (hm ▸ hb) (txID_ne_nil hid hb) _ savedAt
    rw [if_pos rfl] at ht₁ hall
    refine .cons hw₁ hlife hsent (ih hm hp₁ (List.getElem?_set_self hilt) ht₁ hrest) ?_
    intro htip v
    obtain ⟨c, hs, hc, -, hnext⟩ := hop_cases hb
    rw [hall, hs, hc, mem_commit_hop, accepted_hop, List.forall_mem_cons, hs]
    simp only [List.mem_singleton, forall_eq]
    rcases hnext with ⟨h0, -⟩ | ⟨hn, hv⟩
    · simp only [h0, ne_eq, not_true_eq_false, false_and, false_or, false_imp_iff, and_true, and_assoc]
    · -- the output is stored until the next accepted hop spends it
      rw [hn] at h
      obtain ⟨p', hp', hs'⟩ := h.spends_tip htip
      constructor
      · rintro ⟨⟨-, rfl⟩ | ⟨hv, hu, -⟩, hrest⟩
        · exact absurd rfl (hrest p' hp' v (by rw [hs']; exact List.mem_singleton_self v))
        · exact ⟨hv, hu, hrest⟩
      · rintro ⟨hv, hu, hrest⟩
        refine ⟨Or.inr ⟨hv, hu, fun _ => ?_⟩, hrest⟩
        exact hrest p' hp' c (by rw [hs']; exact List.mem_singleton_self c)

end Rounds

/-! ## The length of a chain -/

/-- The number of chains that have ended with nothing left (`chainsExhausted`). -/
def Proc.chainsExhausted (q : Proc Hash) : ℕ :=
  q.tasks.countP fun t => t.kind = .sustain && t.accepted

/-- The attempts `as` of a chain from `u`, whose calls of `Broadcast` end as `os` says. -/
structure ChainTrace (sdk : SDK Hash) (m : Mode Hash) (u : UTXO) (os : List Outcome)
    (as : List (PendingBroadcast Hash × Outcome)) : Prop where
  outcomes : as.map Prod.snd <+: os
  built : ∀ a ∈ as, ∃ v raw, Built sdk a.1 v raw
  /-- the first accepted transaction spends `u`, and each other the output of the one
  before it -/
  linked : (accepted as).map PendingBroadcast.spent <+:
    [u] :: (accepted as).map PendingBroadcast.created
  /-- an attempt after a failed one is the same transaction -/
  retried : as.IsChain fun a b => a.2 ≠ .accepted → b.1 = a.1
  hops : (accepted as).length = min (u.value ⌈/⌉ (m.sustainFee : ℕ)) (os.count .accepted)

/-- **The length of a chain.** A chain makes a hop for each accepted broadcast, retrying
in place, and ends with the `⌈value / fee⌉`-th. Then its fees are all its value, it is
counted as exhausted, what it spent is not stored any more, and of its outputs only one
worth nothing can be stored, that was stored before. -/
theorem chain_length {w : World Hash} {q : Proc Hash} {i : ℕ} {t : Task Hash} {u : UTXO}
    (hq : w.proc = some q) (hi : q.tasks[i]? = some t) (ht : t.HasTip (some u))
    (hu : 0 < u.value) (hp : Parsed sdk u) (hm : q.mode.Signs) (hid : ∀ raw, sdk.txID raw ≠ [])
    (os : List (Outcome × ℕ)) :
    ∃ as w' q', w.run sdk (chainRounds i os) = w' ∧ w'.proc = some q' ∧
      w'.sent = w.sent ++ as.map (fun a => (w.life, a.1)) ∧
      ChainTrace sdk q.mode u (os.map Prod.fst) as ∧
      (q'.tasks[i]?.map Task.pc = some (.done []) ↔
        u.value ⌈/⌉ (q.mode.sustainFee : ℕ) ≤ (os.map Prod.fst).count .accepted) ∧
      (u.value ⌈/⌉ (q.mode.sustainFee : ℕ) ≤ (os.map Prod.fst).count .accepted →
        as.getLast?.map Prod.snd = some .accepted ∧
        ((accepted as).map PendingBroadcast.fee).sum = u.value ∧
        q'.chainsExhausted = q.chainsExhausted + 1 ∧
        (∀ v, v ∈ w'.store.loadAll ↔
          v ∈ w.store.loadAll ∧ ∀ p ∈ accepted as, ∀ x ∈ p.spent, v.key ≠ x.key) ∧
        ∀ p ∈ accepted as, ∀ c ∈ p.created, c ∈ w'.store.loadAll →
          c.value = 0 ∧ c ∈ w.store.loadAll) := by
  obtain ⟨as, tip, h⟩ := exists_chainRun hm ⟨hu, hp⟩ (os.map Prod.fst)
  obtain ⟨w', t', hw', hq', ht', hsent, hstore⟩ := h.makesAttempts hid rfl hq hi ht
  have hceil : u.value ⌈/⌉ (q.mode.sustainFee : ℕ) = hopsOf q.mode (some u) :=
    Nat.ceilDiv_eq_add_pred_div _ _
  have hilt : i < q.tasks.length := (List.getElem?_eq_some_iff.1 hi).1
  have hpc : t'.pc = .done [] ↔ tip = none := by
    cases tip with
    | none => simp [ht'.2]
    | some c => simp [ht'.2.2]
  have hend := h.ended_iff
  rw [← hceil] at hend
  refine ⟨as, w', _, hw', hq', hsent, ⟨h.outcomes, h.built, h.linked, h.retried, ?_⟩, ?_, ?_⟩
  · rw [hceil]
    exact h.length_accepted
  · rw [← hend, ← hpc, List.getElem?_set_self hilt]
    simp
  · intro hle
    have htip := hend.2 hle
    refine ⟨h.last (by simp) htip, h.fees htip, ?_, hstore htip, ?_⟩
    · have hold : (t.kind = .sustain && t.accepted) = false := by
        rw [Task.accepted, ht.2.2, Bool.and_false]
      have hnew : (t'.kind = .sustain && t'.accepted) = true := by
        rw [Task.accepted, hpc.2 htip, ht'.1]
        rfl
      show List.countP _ (q.tasks.set i t') = List.countP _ q.tasks + 1
      have hget := (List.getElem?_eq_some_iff.1 hi).2
      rw [List.countP_set hilt, hget, hold, hnew]
      rfl
    · intro p hp c hc hcs
      have hcs' := (hstore htip c).1 hcs
      refine ⟨?_, hcs'.1⟩
      by_contra h0
      obtain ⟨p', hp', hs'⟩ := h.spends_outputs htip p hp c hc h0
      exact hcs'.2 p' hp' c (by rw [hs']; exact List.mem_singleton_self c) rfl

namespace Concrete

/-- A process that has started the first of its two chains, worth ten. -/
def firstChain : World Bytes := (World.init twoChains).run plainSDK (startup (options 4 2 1) 5)

/-- Three accepted broadcasts, with failures before and between them. -/
def failuresBetween : List (Outcome × ℕ) :=
  [(.rejected, 1), (.accepted, 2), (.lost, 3), (.rejected, 4), (.accepted, 5), (.accepted, 6)]

end Concrete

/-- Ten satoshis at four a hop are three hops. -/
theorem chain_length_three : ∃ as,
    (Concrete.firstChain.run Concrete.plainSDK (chainRounds 0 Concrete.failuresBetween)).sent =
      Concrete.firstChain.sent ++ as.map (fun a => (Concrete.firstChain.life, a.1)) ∧
    (accepted as).length = 3 ∧ ((accepted as).map PendingBroadcast.fee).sum = 10 := by
  have hstart : Concrete.firstChain.proc.map (fun q =>
      (q.tasks, q.mode.unlocker.isNone, q.mode.sustainFee.val)) =
        some ([⟨.sustain, Concrete.funding 0 10, 0, 1, .wait⟩], true, 4) := by
    decide +kernel
  obtain ⟨q, hq, hpair⟩ := Option.map_eq_some_iff.1 hstart
  simp only [Prod.mk.injEq] at hpair
  obtain ⟨htasks, hul, hfee⟩ := hpair
  have hi : q.tasks[0]? = some ⟨.sustain, Concrete.funding 0 10, 0, 1, .wait⟩ := by rw [htasks]; rfl
  obtain ⟨as, w', q', hw', -, hsent, htrace, -, hend⟩ := chain_length hq hi ⟨rfl, rfl, rfl⟩
    (by decide) ⟨[102], rfl⟩ (Mode.signs_of_none (Option.isNone_iff_eq_none.1 hul))
    Concrete.txID_plainSDK Concrete.failuresBetween
  have hceil : (Concrete.funding 0 10).value ⌈/⌉ (q.mode.sustainFee : ℕ) = 3 := by
    rw [show (q.mode.sustainFee : ℕ) = 4 from hfee]
    rfl
  rw [hceil] at hend
  have hhops := htrace.hops
  rw [hceil] at hhops
  rw [hw']
  exact ⟨as, hsent, hhops, (hend (by decide)).2.1⟩

end TxGen
