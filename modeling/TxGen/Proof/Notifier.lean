import TxGen.Proof.Store
import TxGen.Spec.Notifier

/-!
# A key is sent again after the window, and not before

The map of the notifier is compared with the full history of the calls that returned
true. It holds those that were less than a window old at the last of them
(`History.Current`); what it has dropped could not suppress a call any more.
-/

namespace TxGen.Notifier

open Lib

variable {order : RangeOrder} {now : ℤ} {key k : Bytes} {t : ℤ} {last : Last}

/-- The ends of `time.Duration` are far from the window. -/
theorem sub_lt_iff (now t : ℤ) : sub now t < dedupeWindow ↔ now - t < dedupeWindow := by
  unfold sub dedupeWindow
  omega

/-! ## One call -/

theorem get_foldl_delete (l : List (Bytes × ℤ)) (last : Last) :
    (l.foldl (fun last e => if sub now e.2 ≥ dedupeWindow then last.delete e.1 else last)
      last).get k = some t ↔
      last.get k = some t ∧ ∀ e ∈ l, e.1 = k → now - e.2 < dedupeWindow := by
  induction l generalizing last with
  | nil => simp
  | cons e l ih =>
    rw [List.foldl_cons, ih, List.forall_mem_cons]
    split_ifs with hold
    · rw [Bucket.get_delete]
      rw [ge_iff_le, ← not_lt, sub_lt_iff] at hold
      by_cases hk : k = e.1
      · simp [hk, hold]
      · simp [hk, Ne.symm hk]
    · rw [ge_iff_le, not_le, sub_lt_iff] at hold
      simp [hold]

/-- Pruning leaves the entries that are less than a window old. -/
theorem get_prune : (prune order now last).get k = some t ↔
    last.get k = some t ∧ now - t < dedupeWindow := by
  rw [prune, get_foldl_delete]
  refine and_congr_right fun hk => ?_
  have hmem := Bucket.get_eq_some.1 hk
  constructor
  · intro h
    exact h (k, t) ((order.perm last).mem_iff.2 hmem) rfl
  · rintro h ⟨k', t'⟩ he rfl
    rw [Bucket.eq_of_mem_of_mem ((order.perm last).mem_iff.1 he) hmem]
    exact h

/-- A call returns true unless the map has its key with a time less than a window ago. -/
theorem shouldSend_fst : (shouldSend order now key last).1 = true ↔
    ∀ t, last.get key = some t → ¬now - t < dedupeWindow := by
  unfold shouldSend
  cases hk : last.get key with
  | none => simp
  | some t =>
    simp only [Option.any_some, decide_eq_true_eq, sub_lt_iff, Option.some.injEq, forall_eq']
    split_ifs with hrecent
    · simp [hrecent]
    · simp [hrecent]

theorem shouldSend_of_false (h : (shouldSend order now key last).1 = false) :
    (shouldSend order now key last).2 = last := by
  unfold shouldSend at h ⊢
  split_ifs with hk
  · rfl
  · rw [if_neg hk] at h
    cases h

theorem get_shouldSend (h : (shouldSend order now key last).1 = true) :
    (shouldSend order now key last).2.get k = some t ↔
      (if k = key then t = now else last.get k = some t) ∧ now - t < dedupeWindow := by
  unfold shouldSend at h ⊢
  split_ifs at h ⊢ with hk hkey
  · rw [get_prune, Bucket.get_put, if_pos hkey, Option.some.injEq, eq_comm]
  · rw [get_prune, Bucket.get_put, if_neg hkey]

/-- An entry that is dropped is too old to suppress a call, then and later. -/
theorem shouldSend_prune {later : ℤ} (hlater : now ≤ later) (order' : RangeOrder) :
    (shouldSend order' later key (prune order now last)).1 =
      (shouldSend order' later key last).1 := by
  rw [Bool.eq_iff_iff, shouldSend_fst, shouldSend_fst]
  constructor
  · intro h t hk hrecent
    exact h t (get_prune.2 ⟨hk, by omega⟩) hrecent
  · intro h t hk
    exact h t (get_prune.1 hk).1

/-! ## Runs -/

namespace History

variable {h : History} {c : Call}

/-- The map has the accepted calls that were less than a window old at every accepted
call, each with its time. -/
def Current (h : History) : Prop :=
  ∀ k t, h.last.get k = some t ↔
    (k, t) ∈ h.accepted ∧ ∀ e ∈ h.accepted, e.2 - t < dedupeWindow

/-- The call is not before an accepted one. -/
def NotBefore (h : History) (c : Call) : Prop := ∀ e ∈ h.accepted, e.2 ≤ c.now

theorem step_of_true (hc : (shouldSend c.order c.now c.key h.last).1 = true) :
    h.step c = ⟨(shouldSend c.order c.now c.key h.last).2, (c.key, c.now) :: h.accepted⟩ := by
  simp only [step, hc, if_true]

theorem step_of_false (hc : (shouldSend c.order c.now c.key h.last).1 = false) : h.step c = h := by
  simp only [step, hc, shouldSend_of_false hc, Bool.false_eq_true, if_false]

/-- The map answers as the full history does: what it does not have is too old. -/
theorem Current.shouldSend_iff (hh : h.Current) (hc : h.NotBefore c) :
    (shouldSend c.order c.now c.key h.last).1 = true ↔
      ∀ e ∈ h.accepted, e.1 = c.key → ¬c.now - e.2 < dedupeWindow := by
  rw [shouldSend_fst]
  constructor
  · rintro hmap ⟨k, t⟩ he rfl hrecent
    refine hmap t ((hh _ t).2 ⟨he, fun e' he' => ?_⟩) hrecent
    have := hc e' he'
    dsimp only at hrecent
    omega
  · intro hall t hk
    exact hall (c.key, t) ((hh _ t).1 hk).1 rfl

theorem Current.step (hh : h.Current) (hc : h.NotBefore c) : (h.step c).Current := by
  cases hsent : (shouldSend c.order c.now c.key h.last).1 with
  | false => rwa [step_of_false hsent]
  | true =>
    rw [step_of_true hsent]
    intro k t
    have hold := (hh.shouldSend_iff hc).1 hsent
    rw [get_shouldSend hsent, List.mem_cons, List.forall_mem_cons, Prod.mk.injEq]
    split_ifs with hkey
    · -- the key of the call: its earlier times are too old
      subst hkey
      constructor
      · rintro ⟨rfl, hnow⟩
        refine ⟨Or.inl ⟨rfl, rfl⟩, hnow, fun e he => ?_⟩
        have := hc e he
        omega
      · rintro ⟨⟨-, rfl⟩ | he, hnow, -⟩
        · exact ⟨rfl, hnow⟩
        · exact absurd hnow (hold _ he rfl)
    · rw [hh k t]
      constructor
      · rintro ⟨⟨he, hall⟩, hnow⟩
        exact ⟨Or.inr he, hnow, hall⟩
      · rintro ⟨⟨rfl, -⟩ | he, hnow, hall⟩
        · exact absurd rfl hkey
        · exact ⟨⟨he, hall⟩, hnow⟩

theorem accepted_step {e : Bytes × ℤ} (he : e ∈ (h.step c).accepted) :
    e = (c.key, c.now) ∨ e ∈ h.accepted := by
  unfold step at he
  dsimp only at he
  split_ifs at he
  · exact List.mem_cons.1 he
  · exact Or.inr he

/-- In a sequence of calls at non-decreasing times, no call is before an accepted one. -/
theorem along_notBefore (calls : List Call) (hmono : calls.Pairwise fun c d => c.now ≤ d.now)
    (hh : ∀ c ∈ calls, h.NotBefore c) : Along step NotBefore h calls := by
  induction calls generalizing h with
  | nil => trivial
  | cons c calls ih =>
    obtain ⟨hfirst, hrest⟩ := List.pairwise_cons.1 hmono
    refine ⟨hh c List.mem_cons_self, ih hrest fun d hd e he => ?_⟩
    rcases accepted_step he with rfl | he
    · exact hfirst d hd
    · exact hh d (List.mem_cons_of_mem _ hd) e he

theorem current_start : start.Current := by
  intro k t
  simp [start]

end History

open History

/-- **Messages are deduplicated exactly.** After any calls at non-decreasing times, the
next one returns true when no accepted call with its key was less than a window before
it, and only then. When it does, the map holds the keys accepted within the last window,
with their times. Pruning changes no later answer. -/
theorem shouldSend_exact (before : List Call) (c : Call)
    (hmono : (before ++ [c]).Pairwise fun c d => c.now ≤ d.now) :
    let h := run step start before
    let sent := (shouldSend c.order c.now c.key h.last).1
    (sent = true ↔ ¬∃ e ∈ h.accepted, e.1 = c.key ∧ c.now - e.2 < dedupeWindow) ∧
    (sent = true → ∀ k t, (h.step c).last.get k = some t ↔
      (k, t) ∈ (h.step c).accepted ∧ c.now - t < dedupeWindow) ∧
    ∀ order now last order' later key, now ≤ later →
      (shouldSend order' later key (prune order now last)).1 =
        (shouldSend order' later key last).1 := by
  have halong := along_notBefore (h := start) _ hmono fun _ _ e he => absurd he List.not_mem_nil
  obtain ⟨hbefore, hc, -⟩ := Along.append.1 halong
  have hcur := hbefore.inv (fun _ _ hh hc => Current.step hh hc) current_start
  refine ⟨?_, fun hsent k t => ?_, fun order now last order' later key hle =>
    shouldSend_prune hle order'⟩
  · rw [hcur.shouldSend_iff hc]
    push Not
    rfl
  · rw [hcur.step hc k t, step_of_true hsent]
    refine and_congr_right fun _ => ⟨fun hall => hall (c.key, c.now) List.mem_cons_self, ?_⟩
    -- the call is the latest of the accepted ones
    intro hrecent e he
    rcases List.mem_cons.1 he with rfl | he
    · exact hrecent
    · have := hc e he
      omega

/-- The order in which the keys are sorted. -/
def keyOrder : RangeOrder := ⟨fun last => last.entries, fun _ => List.Perm.refl _⟩

/-- A key is suppressed one nanosecond before the window ends and sent again at its
end, where the first entry has just been replaced. -/
theorem shouldSend_edge :
    (shouldSend keyOrder (dedupeWindow - 1) [7] (run step start [⟨[7], 0, keyOrder⟩]).last).1 = false ∧
    (shouldSend keyOrder dedupeWindow [7] (run step start [⟨[7], 0, keyOrder⟩]).last).1 = true := by
  have hrun : (run step start [⟨[7], 0, keyOrder⟩]).accepted = [([7], 0)] := by decide +kernel
  have hedge : ∀ now, 0 ≤ now →
      ((shouldSend keyOrder now [7] (run step start [⟨[7], 0, keyOrder⟩]).last).1 = true ↔
        ¬now < dedupeWindow) := by
    intro now hnow
    rw [(shouldSend_exact [⟨[7], 0, keyOrder⟩] ⟨[7], now, keyOrder⟩ (by simpa using hnow)).1, hrun]
    simp
  constructor
  · rw [← Bool.not_eq_true, hedge _ (by decide)]
    simp
  · rw [hedge _ (by decide)]
    exact lt_irrefl _

/-! ## The keys of reorgs -/

theorem itoa_injective : Function.Injective itoa := by
  intro m n h
  have hnat : ∀ a b : ℕ, appendUint a = appendUint b → a = b := fun a b hab =>
    Function.LeftInverse.injective readUint_appendUint hab
  have hsign : ∀ a b : ℕ, 45 :: appendUint a ≠ appendUint b := by
    intro a b hab
    exact absurd (digit_of_mem_appendUint (hab ▸ List.mem_cons_self)).1 (by decide)
  unfold itoa at h
  split_ifs at h with hm hn hn
  · have := hnat _ _ (List.cons_inj_right _ |>.1 h)
    omega
  · exact absurd h (hsign _ _)
  · exact absurd h.symm (hsign _ _)
  · have := hnat _ _ h
    omega

theorem reorgKey_inj {m n : ℤ} : reorgKey m = reorgKey n ↔ m = n := by
  rw [reorgKey, reorgKey, List.append_cancel_left_eq, itoa_injective.eq_iff]

end TxGen.Notifier
