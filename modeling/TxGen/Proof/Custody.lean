import TxGen.Lib.Slots
import TxGen.Proof.Ledger
import TxGen.Proof.Queue

/-!
# Custody of the stored UTXOs

Once `New` has restored it, a process accounts for the store: each stored UTXO is
in the queue or with exactly one spending goroutine (`Custody`), every pending
record is the one a goroutine would build now, and no two goroutines hold the same
UTXO. The steps of a goroutine keep this; only the commit moves the store, and it
moves the goroutine's UTXO with it.
-/

namespace TxGen

open Lib
open scoped List

variable {Hash : Type} {sdk : SDK Hash}

/-! ## Goroutines -/

namespace Task

variable (t : Task Hash)

/-- The UTXOs a goroutine accounts for: the one it spends, or what became of it. A
fanout given up has put it back on the queue. -/
def holds : List UTXO :=
  match t.pc with
  | .done outputs => outputs
  | .requeued _ => []
  | _ => [t.utxo]

/-- The record of the transaction a goroutine is broadcasting. -/
def record : Option (PendingBroadcast Hash) :=
  match t.pc with
  | .saved p | .rejected p | .accepted p => some p
  | _ => none

/-- The goroutine was given up and has put its UTXO back on the queue. -/
def requeued : Bool :=
  match t.pc with
  | .requeued _ => true
  | _ => false

/-- The pending record `p` is that of the transaction the goroutine builds. -/
def Owns (sdk : SDK Hash) (mode : Mode Hash) (p : PendingBroadcast Hash) : Prop :=
  t.accepted = false ∧ ∃ p₀ savedAt, t.build sdk mode = .ok p₀ ∧ p = { p₀ with savedAt }

variable {t} {mode : Mode Hash} {p : PendingBroadcast Hash}

theorem Owns.built (h : t.Owns sdk mode p) : ∃ raw, Built sdk p t.utxo raw := by
  obtain ⟨-, p₀, at', hb, rfl⟩ := h
  obtain ⟨raw, hraw⟩ := Task.build_ok hb
  exact ⟨raw, hraw.withSavedAt at'⟩

theorem Owns.txID (h : t.Owns sdk mode p) {p' : PendingBroadcast Hash}
    (hb : t.build sdk mode = .ok p') : p.txID = p'.txID := by
  obtain ⟨-, p₀, at', hb', rfl⟩ := h
  rw [hb] at hb'
  cases hb'
  rfl

theorem accepted_of_record (h : t.record = some p) : t.accepted = false := by
  unfold record at h
  unfold Task.accepted
  split at h <;> simp_all

theorem holds_of_record (h : t.record = some p) : t.holds = [t.utxo] := by
  unfold record at h
  unfold holds
  split at h <;> simp_all

/-- After its commit a goroutine accounts for the outputs worth something. -/
theorem holds_afterCommit (hb : t.build sdk mode = .ok p) :
    (t.afterCommit p).holds = p.created.filter (·.value ≠ 0) := by
  unfold Task.build at hb
  unfold afterCommit
  split at hb
  case h_1 hk | h_2 hk =>
    have hpos := (fanoutPending_ok hb).2.2.2.2
    rw [if_neg (by rw [hk]; decide)]
    show p.created = _
    exact (List.filter_eq_self.2 (by simpa using hpos)).symm
  case h_3 hk =>
    obtain ⟨-, -, next, hcr, -⟩ := sustainPending_ok hb
    rw [if_pos hk, hcr]
    by_cases h0 : next.value = 0
    · simp [h0, holds]
    · simp [h0, holds]

/-- A goroutine goes on after its commit only with an output worth something. -/
theorem afterCommit_spec (hb : t.build sdk mode = .ok p)
    (ha : (t.afterCommit p).accepted = false) :
    (t.afterCommit p).utxo ∈ p.created.filter (·.value ≠ 0) ∧ (t.afterCommit p).record = none := by
  have hh := holds_afterCommit hb
  unfold afterCommit at ha hh ⊢
  split_ifs at ha hh ⊢ with hk
  · split at ha
    · split_ifs at ha hh ⊢ <;> simp_all [Task.accepted, holds, record]
    · simp [Task.accepted] at ha
  · simp [Task.accepted] at ha

end Task

/-! ## Custody -/

/-- The process `q` accounts for the store `s`. -/
structure Custody (sdk : SDK Hash) (s : Store Hash) (q : Proc Hash) : Prop where
  sync : q.queue ++ q.tasks.flatMap Task.holds ~ s.loadAll
  records : ∀ t ∈ q.tasks, ∀ p ∈ t.record, t.build sdk q.mode = .ok p ∧ p.txID ≠ []
  owner : ∀ p ∈ s.loadPending, ∃ t ∈ q.tasks, t.Owns sdk q.mode p
  durable : ∀ t ∈ q.tasks, t.accepted = false → t.utxo ∈ s.loadAll
  distinct : ∀ (i j : ℕ) (a b : Task Hash), q.tasks[i]? = some a → q.tasks[j]? = some b →
    a.accepted = false → b.accepted = false → a.utxo = b.utxo → i = j
  unlocked : q.bootstrapLocked = false → q.tasks = []

/-- No goroutine runs, no broadcast is pending, and the queue is the store. -/
structure Idle (s : Store Hash) (q : Proc Hash) : Prop where
  tasks : q.tasks = []
  queue : q.queue ~ s.loadAll
  pending : s.loadPending = []

theorem Idle.custody {s : Store Hash} {q : Proc Hash} (h : Idle s q) : Custody sdk s q where
  sync := by rw [h.tasks, List.flatMap_nil, List.append_nil]; exact h.queue
  records t ht := by rw [h.tasks] at ht; cases ht
  owner p hp := by rw [h.pending] at hp; cases hp
  durable t ht := by rw [h.tasks] at ht; cases ht
  distinct i j a b hi := by rw [h.tasks] at hi; simp at hi
  unlocked _ := h.tasks

namespace Custody

variable {s s' : Store Hash} {q : Proc Hash} {i : ℕ} {t t' : Task Hash}
  {p : PendingBroadcast Hash} {u : UTXO}

/-- A pending record that spends the goroutine's UTXO is the goroutine's own. -/
theorem owner_eq (h : Custody sdk s q) (hi : q.tasks[i]? = some t) (ha : t.accepted = false)
    (hp : p ∈ s.loadPending) (hs : p.spent = [t.utxo]) : t.Owns sdk q.mode p := by
  obtain ⟨t₂, ht₂, hown⟩ := h.owner p hp
  obtain ⟨j, hj⟩ := List.mem_iff_getElem?.1 ht₂
  obtain ⟨raw, hb⟩ := hown.built
  have hu : t₂.utxo = t.utxo := by
    have := hb.spent.symm.trans hs
    simpa using this
  have hji := h.distinct j i t₂ t hj hi hown.1 ha hu
  rw [hji, hi] at hj
  cases hj
  exact hown

theorem txID_of_spent (h : Custody sdk s q) (hi : q.tasks[i]? = some t) (ha : t.accepted = false)
    (hb : t.build sdk q.mode = .ok p) :
    ∀ r ∈ s.loadPending, r.spent = [t.utxo] → r.txID = p.txID :=
  fun _ hr hs => (h.owner_eq hi ha hr hs).txID hb

/-- **A step of a goroutine that leaves the stored UTXOs alone.** It keeps the UTXO
it spends, or puts it back on the queue, and the pending records it adds are its
own. -/
theorem keep (h : Custody sdk s q) (hi : q.tasks[i]? = some t) (ha : t.accepted = false)
    (pc : TaskPc Hash) (attempt : ℕ) (ha' : { t with pc, attempt }.accepted = false)
    {queue : List UTXO} (hheld : queue ++ { t with pc, attempt }.holds ~ q.queue ++ t.holds)
    (hrec : ∀ p ∈ { t with pc, attempt }.record, t.build sdk q.mode = .ok p ∧ p.txID ≠ [])
    (hall : s'.loadAll = s.loadAll)
    (hpend : ∀ p ∈ s'.loadPending, p ∈ s.loadPending ∨ t.Owns sdk q.mode p) :
    Custody sdk s' { q with queue, tasks := q.tasks.set i { t with pc, attempt } } := by
  set t' : Task Hash := { t with pc, attempt }
  have hbuild : t'.build sdk q.mode = t.build sdk q.mode := rfl
  have hutxo : t'.utxo = t.utxo := rfl
  have hilt : i < q.tasks.length := (List.getElem?_eq_some_iff.1 hi).1
  have hset : (q.tasks.set i t')[i]? = some t' := List.getElem?_set_self hilt
  -- a slot of the new list holds a task that agrees with the old one on what matters
  have hslot : ∀ (j : ℕ) (a : Task Hash), (q.tasks.set i t')[j]? = some a →
      ∃ a₀, q.tasks[j]? = some a₀ ∧ a.utxo = a₀.utxo ∧
        (a.accepted = false → a₀.accepted = false) := by
    intro j a hj
    by_cases hji : j = i
    · subst hji
      rw [hset] at hj
      cases hj
      exact ⟨t, hi, hutxo, fun _ => ha⟩
    · rw [List.getElem?_set_ne (Ne.symm hji)] at hj
      exact ⟨a, hj, rfl, id⟩
  exact {
    sync := by
      rw [hall]
      have hset := flatMap_set_perm Task.holds (b := t') hi
      have hsync := h.sync
      rw [List.perm_iff_count] at hheld hset hsync ⊢
      intro v
      have h1 := hheld v
      have h2 := hset v
      have h3 := hsync v
      simp only [List.count_append] at h1 h2 h3 ⊢
      omega
    records := by
      apply forall_set h.records
      intro p hp
      rw [hbuild]
      exact hrec p hp
    owner := by
      intro p hp
      rcases hpend p hp with hp | hown
      · obtain ⟨t₂, ht₂, hown⟩ := h.owner p hp
        obtain ⟨j, hj⟩ := List.mem_iff_getElem?.1 ht₂
        by_cases hji : j = i
        · rw [hji, hi] at hj
          cases hj
          exact ⟨t', List.mem_of_getElem? hset, ha', by rw [hbuild]; exact hown.2⟩
        · refine ⟨t₂, List.mem_of_getElem? (i := j) ?_, hown⟩
          rw [List.getElem?_set_ne (Ne.symm hji)]
          exact hj
      · exact ⟨t', List.mem_of_getElem? hset, ha', by rw [hbuild]; exact hown.2⟩
    durable := by
      rw [hall]
      apply forall_set h.durable
      intro _
      rw [hutxo]
      exact h.durable t (List.mem_of_getElem? hi) ha
    distinct := by
      intro j k a b hj hk haa hbb he
      obtain ⟨a₀, hj₀, hau, haa₀⟩ := hslot j a hj
      obtain ⟨b₀, hk₀, hbu, hbb₀⟩ := hslot k b hk
      exact h.distinct j k a₀ b₀ hj₀ hk₀ (haa₀ haa) (hbb₀ hbb) (by rw [← hau, ← hbu, he])
    unlocked := by
      intro hl
      rw [h.unlocked hl] at hi
      simp at hi }

/-- **The commit of a goroutine's transaction** moves its UTXO in memory as on disk. -/
theorem commit (h : Custody sdk s q) {imported : List UTXO} {committed : List (PendingBroadcast Hash)}
    (hL : Ledger sdk s imported committed) (hinj : Function.Injective sdk.txHash)
    (hf : Fresh sdk imported (committed ++ [p])) (hi : q.tasks[i]? = some t)
    (hrec : t.record = some p) :
    Custody sdk (s.commitPending p.txID p.spent p.created)
      { q with tasks := q.tasks.set i (t.afterCommit p) } := by
  have htm := List.mem_of_getElem? hi
  obtain ⟨hbuild, hid⟩ := h.records t htm p hrec
  obtain ⟨raw, hb⟩ := Task.build_ok hbuild
  have ha := Task.accepted_of_record hrec
  have hu := h.durable t htm ha
  have hilt : i < q.tasks.length := (List.getElem?_eq_some_iff.1 hi).1
  have hmem : ∀ v, v ∈ (s.commitPending p.txID p.spent p.created).loadAll ↔
      v ≠ t.utxo ∧ ((v ∈ p.created ∧ v.value ≠ 0) ∨ v ∈ s.loadAll) :=
    fun v => hL.mem_commit hinj hf hb hu
  -- another goroutine still holds a stored UTXO, which is not an output of `p`
  have hother : ∀ (j : ℕ) (a : Task Hash), j ≠ i → q.tasks[j]? = some a → a.accepted = false →
      a.utxo ≠ t.utxo ∧ a.utxo ∉ p.created := by
    intro j a hji hj haa
    refine ⟨fun he => hji (h.distinct j i a t hj hi haa ha he), fun hc => ?_⟩
    exact hL.created_new hinj hf hb hu hc
      (hL.known_of_stored (h.durable a (List.mem_of_getElem? hj) haa)) rfl
  have hset : (q.tasks.set i (t.afterCommit p))[i]? = some (t.afterCommit p) :=
    List.getElem?_set_self hilt
  exact {
    sync := by
      have hset := flatMap_set_perm Task.holds (b := t.afterCommit p) hi
      rw [Task.holds_afterCommit hbuild, Task.holds_of_record hrec] at hset
      have hcom := hL.commit_loadAll hinj hf hb hu
      have hsync := h.sync
      -- both sides lose the parent and gain the outputs: compare the counts
      rw [List.perm_iff_count] at hset hcom hsync ⊢
      intro v
      have h1 := hset v
      have h2 := hcom v
      have h3 := hsync v
      simp only [List.count_append, List.count_cons, List.count_nil] at h1 h2 h3 ⊢
      omega
    records := by
      intro a ha' r hr
      rcases mem_set_cases ha' with rfl | ⟨j, -, hj⟩
      · have hnone := (Task.afterCommit_spec hbuild (Task.accepted_of_record hr)).2
        rw [Option.mem_def, hnone] at hr
        cases hr
      · exact h.records a (List.mem_of_getElem? hj) r hr
    owner := by
      intro r hr
      obtain ⟨hne, hr⟩ := (Store.mem_commitPending_pending hid).1 hr
      obtain ⟨a, ham, hown⟩ := h.owner r hr
      obtain ⟨j, hj⟩ := List.mem_iff_getElem?.1 ham
      have hji : j ≠ i := by
        rintro rfl
        rw [hi] at hj
        cases hj
        exact hne (hown.txID hbuild)
      refine ⟨a, List.mem_of_getElem? (i := j) ?_, hown⟩
      rw [List.getElem?_set_ne hji.symm]
      exact hj
    durable := by
      intro a ha' haa
      rcases mem_set_cases ha' with rfl | ⟨j, hji, hj⟩
      · have hcr := List.mem_filter.1 (Task.afterCommit_spec hbuild haa).1
        refine (hmem _).2 ⟨?_, Or.inl ⟨hcr.1, by simpa using hcr.2⟩⟩
        intro he
        exact hL.created_new hinj hf hb hu hcr.1 (hL.known_of_stored hu) (by rw [he])
      · exact (hmem _).2 ⟨(hother j a hji hj haa).1,
          Or.inr (h.durable a (List.mem_of_getElem? hj) haa)⟩
    distinct := by
      -- only a chain goes on after its commit, with an output that nobody else holds
      have hnew : ∀ (j : ℕ) (a : Task Hash), j ≠ i → q.tasks[j]? = some a → a.accepted = false →
          (t.afterCommit p).accepted = false → a.utxo ≠ (t.afterCommit p).utxo := by
        intro j a hji hj haa hta he
        have hcr := List.mem_of_mem_filter (Task.afterCommit_spec hbuild hta).1
        exact (hother j a hji hj haa).2 (he ▸ hcr)
      intro j k a b hj hk haa hbb he
      by_contra hjk
      by_cases hji : j = i
      · have hki : k ≠ i := fun hki => hjk (hji.trans hki.symm)
        rw [hji, hset] at hj
        rw [List.getElem?_set_ne hki.symm] at hk
        cases hj
        exact hnew k b hki hk hbb haa he.symm
      · rw [List.getElem?_set_ne (Ne.symm hji)] at hj
        by_cases hki : k = i
        · rw [hki, hset] at hk
          cases hk
          exact hnew j a hji hj haa hbb he
        · rw [List.getElem?_set_ne (Ne.symm hki)] at hk
          exact hjk (h.distinct j k a b hj hk haa hbb he)
    unlocked := by
      intro hl
      rw [h.unlocked hl] at hi
      simp at hi }

/-- A chain is started on a UTXO taken from the queue. -/
theorem startChain (h : Custody sdk s q) (hreq : ∀ t ∈ q.tasks, t.requeued = false)
    (hlock : q.bootstrapLocked = true) {rest : List UTXO} (hpop : q.queue ~ u :: rest) (n : ℤ) :
    Custody sdk s { q with queue := rest, tasks := q.tasks ++ [⟨.sustain, u, n, 1, .wait⟩] } := by
  have hnodup : (q.queue ++ q.tasks.flatMap Task.holds).Nodup :=
    h.sync.nodup_iff.2 (Table.nodup_values _)
  have huq : u ∈ q.queue := hpop.mem_iff.2 List.mem_cons_self
  have hus : u ∈ s.loadAll := h.sync.mem_iff.1 (List.mem_append_left _ huq)
  -- the UTXO of a running goroutine is not in the queue
  have hne : ∀ a ∈ q.tasks, a.accepted = false → a.utxo ≠ u := by
    intro a ha haa he
    have hh : a.utxo ∈ q.tasks.flatMap Task.holds := by
      refine List.mem_flatMap.2 ⟨a, ha, ?_⟩
      have hr := hreq a ha
      unfold Task.requeued at hr
      unfold Task.accepted at haa
      unfold Task.holds
      split <;> simp_all
    exact (List.nodup_append.1 hnodup).2.2 u huq a.utxo hh he.symm
  have hslot : ∀ (j : ℕ) (a : Task Hash),
      (q.tasks ++ [(⟨.sustain, u, n, 1, .wait⟩ : Task Hash)])[j]? = some a →
      q.tasks[j]? = some a ∨ (j = q.tasks.length ∧ a.utxo = u) := by
    intro j a hj
    rw [List.getElem?_append] at hj
    split_ifs at hj with hlt
    · exact Or.inl hj
    · obtain ⟨h0, rfl⟩ := List.getElem?_eq_some_iff.1 hj
      simp only [List.length_cons, List.length_nil] at h0
      exact Or.inr ⟨by omega, by simp⟩
  exact {
    sync := by
      have hsync := h.sync
      rw [List.perm_iff_count] at hpop hsync ⊢
      intro v
      have h1 := hpop v
      have h2 := hsync v
      simp only [List.flatMap_append, List.flatMap_cons, List.flatMap_nil, Task.holds,
        List.count_append, List.count_cons, List.count_nil] at h1 h2 ⊢
      omega
    records := by
      intro a ha
      rcases List.mem_append.1 ha with ha | ha
      · exact h.records a ha
      · rw [List.mem_singleton.1 ha]
        intro p hp
        cases hp
    owner := by
      intro p hp
      obtain ⟨a, ha, hown⟩ := h.owner p hp
      exact ⟨a, List.mem_append_left _ ha, hown⟩
    durable := by
      intro a ha haa
      rcases List.mem_append.1 ha with ha | ha
      · exact h.durable a ha haa
      · rw [List.mem_singleton.1 ha]
        exact hus
    distinct := by
      intro j k a b hj hk haa hbb he
      rcases hslot j a hj with hj | ⟨hj, hau⟩ <;> rcases hslot k b hk with hk | ⟨hk, hbu⟩
      · exact h.distinct j k a b hj hk haa hbb he
      · exact absurd (he.trans hbu) (hne a (List.mem_of_getElem? hj) haa)
      · exact absurd (he.symm.trans hau) (hne b (List.mem_of_getElem? hk) hbb)
      · rw [hj, hk]
    unlocked := by
      intro hl
      rw [hlock] at hl
      cases hl }

end Custody

/-- Goroutines are started on UTXOs taken from the queue of an idle process. -/
theorem Idle.start {s : Store Hash} {q q' : Proc Hash} (h : Idle s q)
    (hheld : q'.queue ++ q'.tasks.map Task.utxo ~ q.queue) (hwait : ∀ t ∈ q'.tasks, t.pc = .wait)
    (hlock : q'.bootstrapLocked = true) : Custody sdk s q' := by
  have hall := hheld.trans h.queue
  have hnodup : (q'.tasks.map Task.utxo).Nodup :=
    (List.nodup_append.1 (hall.nodup_iff.2 (Table.nodup_values _))).2.1
  have hholds : q'.tasks.flatMap Task.holds = q'.tasks.map Task.utxo := by
    rw [← List.flatMap_pure_eq_map]
    apply List.flatMap_congr
    intro t ht
    rw [Task.holds, hwait t ht]
    rfl
  exact {
    sync := by rw [hholds]; exact hall
    records := by
      intro t ht p hp
      rw [Task.record, hwait t ht] at hp
      cases hp
    owner := by
      intro p hp
      rw [h.pending] at hp
      cases hp
    durable := fun t ht _ =>
      hall.mem_iff.1 (List.mem_append_right _ (List.mem_map_of_mem ht))
    distinct := by
      intro i j a b hi hj _ _ he
      obtain ⟨hi', rfl⟩ := List.getElem?_eq_some_iff.1 hi
      obtain ⟨hj', rfl⟩ := List.getElem?_eq_some_iff.1 hj
      have hi'' : i < (q'.tasks.map Task.utxo).length := by simpa using hi'
      have hj'' : j < (q'.tasks.map Task.utxo).length := by simpa using hj'
      have hij : (q'.tasks.map Task.utxo)[i] = (q'.tasks.map Task.utxo)[j] := by simpa using he
      exact hnodup.getElem_inj_iff.1 hij
    unlocked := by
      intro hl
      rw [hlock] at hl
      cases hl }

end TxGen
