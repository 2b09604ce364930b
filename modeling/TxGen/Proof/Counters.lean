import TxGen.Spec.Counters
import TxGen.Proof.Arcade

/-!
# The counters of the broadcasts

A turn of the loop of `Broadcast` is counted where it ends, in `attempted`, while what a
call comes to is only known when it returns. `act_counted` says for each action what is
counted and how the call stands afterwards; the run then has the counters as sums over the
calls, however they interleave.

* `broadcasts_are_counted`: `ok` counts the calls that were answered 202, `error` those
  that failed for another reason than their context while they waited, and the three
  results together the requests that were answered.
-/

namespace TxGen.Arcade

open Lib

variable {parseError : Bytes → Option Bytes} {c : Client} {k : Call} {s : State} {n : Counters}

/-- How a call that has left the loop has been counted last. A call that saw its context
done while it waited for a slot or for the next attempt has not been. -/
def Point.ends : Point → Option Outcome
  | .release none | .returned none => some .ok
  | .release (some .context) | .returned (some .context) => none
  | .release (some _) | .returned (some _) => some .error
  | _ => none

/-- A turn that is retried does not end the call. -/
def Outcome.ends : Outcome → Option Outcome
  | .retry => none
  | o => some o

theorem Outcome.ends_eq_some_iff {o o' : Outcome} : o.ends = some o' ↔ o = o' ∧ o' ≠ .retry := by
  cases o <;> cases o' <;> decide

theorem ends_returned (result : Option BroadcastError) :
    (Point.returned result).ends = (Point.release result).ends := by
  rcases result with _ | e
  · rfl
  · cases e <;> rfl

theorem ends_failed {attempt : ℤ} {e : BroadcastError} (he : e ≠ .context) (retryable : Bool) :
    (c.failed attempt e retryable).ends =
      (if ¬retryable ∨ attempt = c.retryMax then Outcome.error else .retry).ends := by
  unfold Client.failed
  split_ifs
  · cases e with
    | context => exact absurd rfl he
    | _ => rfl
  · rfl

/-- The turn is counted as what the call comes to. -/
theorem ends_attempted (k k' : Call) (hdone : k'.done = k.done) (attempt : ℤ)
    {r : Except BroadcastError (ℕ × Bytes)} (hr : r ≠ .error .context) :
    (c.attempted k' attempt r).point.ends = (c.outcome k attempt r).ends := by
  rcases r with e | ⟨status, body⟩
  · have he : e ≠ .context := fun h => hr (by rw [h])
    rw [Client.attempted, Client.outcome, ends_failed he, hdone]
    simp only [Bool.not_eq_true', Bool.not_eq_false]
  · unfold Client.attempted Client.outcome
    dsimp only
    split_ifs with h202 h
    · rfl
    · rw [ends_failed (fun he => by cases he), if_pos (by simpa using h)]
    · rw [ends_failed (fun he => by cases he), if_neg (by simpa using h)]

theorem attempted_answers (k : Call) (attempt : ℤ) (r : Except BroadcastError (ℕ × Bytes)) :
    (c.attempted k attempt r).answers = k.answers := by
  unfold Client.attempted
  split
  · split_ifs <;> rfl
  · rfl

theorem read_ne_context (a : Answer) : a.read ≠ .error .context := by
  intro h
  cases a <;> cases h

/-- The next attempt of a call in the backoff, and the first one, are made. -/
theorem ends_loop {attempt : ℤ} (h : attempt ≤ c.retryMax) (lastErr : Option BroadcastError) :
    (c.loop attempt lastErr).ends = none := by
  rw [Client.loop, if_pos h]
  rfl

/-- What an action counts, and where it takes the call: it counts nothing and does not end
the call in a way that is counted, or it ends a turn. -/
theorem act_counted (hc : 1 ≤ c.retryMax) (hk : k.OK parseError c) (used : ℕ) (a : Action) :
    (c.counted parseError k a = none ∧
      (c.act parseError k used a).1.point.ends = k.point.ends ∧
      (c.act parseError k used a).1.answers = k.answers) ∨
    ∃ o, c.counted parseError k a = some o ∧ k.point.ends = none ∧
      (c.act parseError k used a).1.point.ends = o.ends ∧
      (c.refusal parseError = none →
        (c.act parseError k used a).1.answers.length = k.answers.length + 1) := by
  cases a with
  | cancel => exact .inl ⟨rfl, rfl, rfl⟩
  | acquire slot =>
    refine .inl ⟨rfl, ?_⟩
    unfold Client.act
    dsimp only
    split
    · rename_i h
      split_ifs
      · exact ⟨by rw [h]; exact ends_loop hc _, rfl⟩
      · exact ⟨rfl, rfl⟩
      · exact ⟨by rw [h]; rfl, rfl⟩
      · exact ⟨rfl, rfl⟩
    · exact ⟨rfl, rfl⟩
  | send =>
    cases hp : k.point with
    | post attempt =>
      cases hcause : parseError (c.baseURL ++ ascii "/tx") with
      | some cause =>
        refine .inr ⟨c.outcome k attempt (.error (.build cause)), ?_, rfl, ?_, fun hurl => ?_⟩
        · simp only [Client.counted, hp, hcause, Option.map_some]
        · simp only [Client.act, hp, hcause]
          exact ends_attempted k k rfl attempt fun h => by cases h
        · -- without a request there is a refusal
          rw [Client.refusal, hcause] at hurl
          cases hurl
      | none =>
        refine .inl ⟨?_, ?_, ?_⟩
        · simp only [Client.counted, hp, hcause, Option.map_none]
        · simp only [Client.act, hp, hcause]
          rfl
        · simp only [Client.act, hp, hcause]
    | _ =>
      exact .inl ⟨by simp only [Client.counted, hp], by simp only [Client.act, hp],
        by simp only [Client.act, hp]⟩
  | answer a =>
    cases hp : k.point with
    | inFlight attempt =>
      refine .inr ⟨c.outcome k attempt a.read, ?_, rfl, ?_, fun _ => ?_⟩
      · simp only [Client.counted, hp]
      · simp only [Client.act, hp]
        refine ends_attempted k _ ?_ attempt (read_ne_context a)
        rfl
      · simp only [Client.act, hp, attempted_answers, List.length_append, List.length_singleton]
    | _ =>
      exact .inl ⟨by simp only [Client.counted, hp], by simp only [Client.act, hp],
        by simp only [Client.act, hp]⟩
  | wake timer =>
    refine .inl ⟨rfl, ?_⟩
    unfold Client.act
    dsimp only
    split
    · rename_i attempt lastErr h
      have hlt : attempt < c.retryMax := by
        have hat := hk.2
        rw [h] at hat
        exact hat.2.2.2
      split_ifs
      · exact ⟨by rw [h]; exact ends_loop (by omega) _, rfl⟩
      · exact ⟨by rw [h]; rfl, rfl⟩
      · exact ⟨rfl, rfl⟩
    · exact ⟨rfl, rfl⟩
  | release =>
    refine .inl ⟨rfl, ?_⟩
    unfold Client.act
    dsimp only
    split
    · rename_i result h
      split_ifs
      · exact ⟨by rw [h]; exact ends_returned result, rfl⟩
      · exact ⟨rfl, rfl⟩
    · exact ⟨rfl, rfl⟩

/-! ## All calls -/

/-- The counters as sums over the calls. -/
structure Counters.Of (parseError : Bytes → Option Bytes) (c : Client) (s : State)
    (n : Counters) : Prop where
  ends : ∀ o, o ≠ .retry → n.total o = s.calls.countP fun k => k.point.ends = some o
  latencies : n.latencies = n.total .ok + n.total .retry + n.total .error
  answers : c.refusal parseError = none → n.latencies = (s.calls.map (·.answers.length)).sum

/-- One call is replaced, and nothing is counted. -/
theorem Counters.Of.still (h : n.Of parseError c s) {i : ℕ} {k' : Call} {used : ℕ}
    (hk : s.calls[i]? = some k) (hends : k'.point.ends = k.point.ends)
    (hanswers : k'.answers = k.answers) : n.Of parseError c ⟨used, s.calls.set i k'⟩ where
  ends o ho := by
    have hset := countP_set_add (b := k') (p := fun k => k.point.ends = some o) hk
    rw [hends] at hset
    rw [h.ends o ho]
    exact (Nat.add_right_cancel hset).symm
  latencies := h.latencies
  answers hurl := by
    have hset := sum_map_set (b := k') (fun k => k.answers.length) hk
    rw [hanswers] at hset
    rw [h.answers hurl]
    exact (Nat.add_right_cancel hset).symm

/-- One call ends a turn, which is counted. -/
theorem Counters.Of.turn (h : n.Of parseError c s) {i : ℕ} {k' : Call} {used : ℕ} {o : Outcome}
    (hk : s.calls[i]? = some k) (hends : k.point.ends = none) (hends' : k'.point.ends = o.ends)
    (hanswers : c.refusal parseError = none → k'.answers.length = k.answers.length + 1) :
    (n.turn o).Of parseError c ⟨used, s.calls.set i k'⟩ where
  ends o' ho' := by
    have hold := h.ends o' ho'
    have hset := countP_set_add (b := k') (p := fun k => k.point.ends = some o') hk
    rw [hends, hends', decide_eq_false (Option.some_ne_none o').symm, Bool.toNat_false] at hset
    rw [Counters.turn]
    dsimp only
    by_cases heq : o = o'
    · subst heq
      have hsome : o.ends = some o := Outcome.ends_eq_some_iff.2 ⟨rfl, ho'⟩
      rw [decide_eq_true hsome, Bool.toNat_true] at hset
      rw [Function.update_self]
      omega
    · have hne : o.ends ≠ some o' := fun h => heq (Outcome.ends_eq_some_iff.1 h).1
      rw [decide_eq_false hne, Bool.toNat_false] at hset
      rw [Function.update_of_ne (Ne.symm heq)]
      omega
  latencies := by
    have hold := h.latencies
    rw [Counters.turn]
    cases o <;> simp [Function.update] <;> omega
  answers hurl := by
    have hset := sum_map_set (b := k') (fun k => k.answers.length) hk
    have hold := h.answers hurl
    have hone := hanswers hurl
    rw [Counters.turn]
    dsimp only at hset ⊢
    omega

theorem Counters.Of.step (hc : 1 ≤ c.retryMax) (hs : s.OK parseError c) (h : n.Of parseError c s)
    (e : Event) : (c.count parseError s n e).Of parseError c (c.step parseError s e) := by
  cases e with
  | call =>
    -- a call that begins has neither ended nor been answered
    refine ⟨fun o ho => ?_, h.latencies, fun hurl => ?_⟩
    · rw [Client.step, List.countP_append, ← h.ends o ho]
      rfl
    · rw [Client.step, List.map_append, List.sum_append, ← h.answers hurl]
      rfl
  | act i a =>
    cases hk : s.calls[i]? with
    | none =>
      rw [step_act_none a hk, Client.count, hk]
      exact h
    | some k =>
      rw [step_act a hk, Client.count, hk, Option.bind_some]
      rcases act_counted hc (hs.calls k (List.mem_of_getElem? hk)) s.used a with
        ⟨hnone, hends, hanswers⟩ | ⟨o, hsome, hends, hends', hanswers⟩
      · rw [hnone]
        exact h.still hk hends hanswers
      · rw [hsome]
        exact h.turn hk hends hends' hanswers

theorem of_run (parseError : Bytes → Option Bytes) (hc : 1 ≤ c.retryMax) (es : List Event) :
    (run (c.countedStep parseError) (State.start, Counters.start) es).1 =
      run (c.step parseError) State.start es ∧
    (run (c.countedStep parseError) (State.start, Counters.start) es).2.Of parseError c
      (run (c.step parseError) State.start es) := by
  induction es using List.reverseRecOn with
  | nil => exact ⟨rfl, fun _ _ => rfl, rfl, fun _ => rfl⟩
  | append_singleton es e ih =>
    rw [run_concat, run_concat, Client.countedStep, ih.1]
    exact ⟨rfl, ih.2.step hc (ok_run parseError hc es) e⟩

/-- A call has been answered 202. -/
def Call.accepted (k : Call) : Bool := k.answers.any fun a => a.status = some 202

/-- A call has failed, and not because it saw its context done while it waited. -/
def Call.failed (k : Call) : Bool := k.point.ends = some .error

theorem accepted_iff {answers : List Answer} :
    (answers.any fun a => a.status = some 202) = true ↔ ∃ a ∈ answers, a.status = some 202 := by
  simp only [List.any_eq_true, decide_eq_true_eq]

/-- The calls that have ended as accepted are those that were answered 202. -/
theorem Call.OK.ends_ok (hk : k.OK parseError c) : k.point.ends = some .ok ↔ k.accepted = true := by
  have hretrying : Retrying k.answers k.observed → ¬k.accepted = true := by
    intro h haccepted
    obtain ⟨a, ha, hstatus⟩ := accepted_iff.1 haccepted
    exact (h.answers a ha).ne_accepted hstatus
  have hended : ∀ result, Ended parseError c k.answers k.observed result →
      ((Point.release result).ends = some .ok ↔ k.accepted = true) := by
    intro result h
    rw [Call.accepted, accepted_iff, ← h.accepted]
    rcases result with _ | e
    · exact ⟨fun _ => rfl, fun _ => rfl⟩
    · refine iff_of_false (fun h => ?_) (Option.some_ne_none e)
      cases e <;> cases h
  have hat := hk.2
  cases hp : k.point with
  | release result =>
    rw [hp] at hat
    exact hended result hat.1
  | returned result =>
    rw [hp] at hat
    rw [ends_returned]
    exact hended result hat.1
  | _ =>
    rw [hp] at hat
    exact iff_of_false (fun h => by cases h) (hretrying hat.1)

/-- **Broadcasts are counted.** After every run, with any number of calls at once, `ok` has
counted the calls that were answered 202, and `error` those that failed for another reason
than a context that was done while they waited. Every turn is counted under one of the
three results and its latency is observed; when requests can be made at all, these are the
requests that were answered. -/
theorem broadcasts_are_counted (parseError : Bytes → Option Bytes) (opts : Options)
    (es : List Event) :
    let c := new opts
    let s := run (c.step parseError) State.start es
    let n := (run (c.countedStep parseError) (State.start, Counters.start) es).2
    n.total .ok = s.calls.countP Call.accepted ∧
    n.total .error = s.calls.countP Call.failed ∧
    n.latencies = n.total .ok + n.total .retry + n.total .error ∧
    (c.refusal parseError = none → n.latencies = (s.calls.map (·.answers.length)).sum) := by
  have hretry : 1 ≤ (new opts).retryMax := le_max_right _ _
  have hs := ok_run parseError hretry es
  have h := (of_run parseError hretry es).2
  refine ⟨?_, h.ends .error (by decide), h.latencies, h.answers⟩
  rw [h.ends .ok (by decide)]
  refine List.countP_congr fun k hk => ?_
  rw [decide_eq_true_eq]
  exact (hs.calls k hk).ends_ok

/-- A call that is told to slow down and is then accepted: one retry and one broadcast. -/
theorem broadcasts_are_counted_second :
    let es := Concrete.firstAnswer (.response 429 [] false) ++ Concrete.secondAccepted
    let n := (run ((new Concrete.twoAttempts).countedStep fun _ => none)
      (State.start, Counters.start) es).2
    n.total .ok = 1 ∧ n.total .retry = 1 ∧ n.total .error = 0 ∧ n.latencies = 2 := by
  obtain ⟨hok, herror, htotal, hanswers⟩ := broadcasts_are_counted (fun _ => none)
    Concrete.twoAttempts (Concrete.firstAnswer (.response 429 [] false) ++ Concrete.secondAccepted)
  have hlatencies := hanswers rfl
  have hcalls : (run ((new Concrete.twoAttempts).step fun _ => none) State.start
      (Concrete.firstAnswer (.response 429 [] false) ++ Concrete.secondAccepted)).calls =
        [⟨.returned none, false, 2, [.response 429 [] false, .response 202 [] true], false⟩] := by
    decide +kernel
  dsimp only at hok herror htotal hlatencies ⊢
  rw [hcalls] at hok herror hlatencies
  -- the one call was accepted with its second request
  change _ = 1 at hok
  change _ = 0 at herror
  change _ = 2 at hlatencies
  refine ⟨hok, ?_, herror, hlatencies⟩
  omega

end TxGen.Arcade
