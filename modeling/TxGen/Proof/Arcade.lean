import Mathlib.Algebra.Order.BigOperators.Group.List
import TxGen.Lib.Slots
import TxGen.Spec.Arcade

/-!
# Broadcasts are retried exactly

A call is described by what it has seen so far (`Call.OK`): while it goes on, every answer
it got is one that is retried and no cancellation was seen, and when it ends its result
says how. The slots in use are those of the calls that hold one. Every step brings a call
closer to its end (`Client.rank`), and a client at which nothing can happen any more has
no call left, so every call returns.
-/

namespace TxGen.Arcade

open Lib

variable {parseError : Bytes → Option Bytes} {c : Client} {k k' : Call} {n n' : ℕ}

/-! ## Answers -/

/-- The status of an answer, if it is a response. -/
def Answer.status : Answer → Option ℕ
  | .failed _ => none
  | .response status _ _ => some status

/-- The error an answer makes the call return, if it is not accepted. -/
def Answer.error : Answer → Option BroadcastError
  | .failed cause => some (.transport cause)
  | .response status body _ =>
    if status = 202 then none else some (.rejected status (body.take maxResponseBytes))

/-- A transport error, a 429 or a status of at least 500. -/
def Answer.Retried (a : Answer) : Prop :=
  ∀ status, a.status = some status → status = 429 ∨ 500 ≤ status

theorem Answer.Retried.ne_accepted {a : Answer} (h : a.Retried) : a.status ≠ some 202 := by
  intro h0
  have := h 202 h0
  omega

/-! ## One step -/

/-- Why `http.NewRequest` refuses the URL of the broadcasts, if it does. -/
def Client.refusal (parseError : Bytes → Option Bytes) (c : Client) : Option Bytes :=
  parseError (c.baseURL ++ ascii "/tx")

/-- What a step does to a call and to the number of slots in use. -/
inductive Effect (parseError : Bytes → Option Bytes) (c : Client) (k : Call) (n : ℕ) :
    Call → ℕ → Prop
  | none : Effect parseError c k n k n
  | cancel : Effect parseError c k n { k with done := true } n
  | slot (h : k.point = .acquire) (hfree : n < c.slots) :
      Effect parseError c k n { k with point := c.loop 1 .none } (n + 1)
  | noSlot (h : k.point = .acquire) :
      Effect parseError c k n { k with point := .returned (some .context), observed := true } n
  | unsent {attempt : ℤ} {cause : Bytes} (h : k.point = .post attempt)
      (hcause : c.refusal parseError = some cause) :
      Effect parseError c k n (c.attempted k attempt (.error (.build cause))) n
  | sent {attempt : ℤ} (h : k.point = .post attempt) (hurl : c.refusal parseError = .none) :
      Effect parseError c k n { k with point := .inFlight attempt, sent := k.sent + 1 } n
  | answered {attempt : ℤ} (a : Answer) (h : k.point = .inFlight attempt) :
      Effect parseError c k n
        (c.attempted { k with answers := k.answers ++ [a] } attempt a.read) n
  | woken {attempt : ℤ} {lastErr : BroadcastError} (h : k.point = .sleep attempt lastErr) :
      Effect parseError c k n { k with point := c.loop (attempt + 1) (some lastErr) } n
  | gaveUp {attempt : ℤ} {lastErr : BroadcastError} (h : k.point = .sleep attempt lastErr) :
      Effect parseError c k n { k with point := .release (some .context), observed := true } n
  | released {result : Option BroadcastError} (h : k.point = .release result) (hn : 0 < n) :
      Effect parseError c k n { k with point := .returned result } (n - 1)

theorem act_effect (parseError : Bytes → Option Bytes) (c : Client) (k : Call) (n : ℕ)
    (a : Action) :
    Effect parseError c k n (c.act parseError k n a).1 (c.act parseError k n a).2 := by
  cases a with
  | cancel => exact .cancel
  | acquire slot =>
    unfold Client.act
    dsimp only
    split
    · rename_i h
      split_ifs with hslot hfree hdone
      · exact .slot h hfree
      · exact .none
      · exact .noSlot h
      · exact .none
    · exact .none
  | send =>
    unfold Client.act
    dsimp only
    split
    · rename_i h
      split
      · rename_i hcause
        exact .unsent h hcause
      · rename_i hurl
        exact .sent h hurl
    · exact .none
  | answer a =>
    unfold Client.act
    dsimp only
    split
    · rename_i h
      exact .answered a h
    · exact .none
  | wake timer =>
    unfold Client.act
    dsimp only
    split
    · rename_i h
      split_ifs with htimer hdone
      · exact .woken h
      · exact .gaveUp h
      · exact .none
    · exact .none
  | release =>
    unfold Client.act
    dsimp only
    split
    · rename_i h
      split_ifs with hn
      · exact .released h hn
      · exact .none
    · exact .none

/-- The loop goes on with an attempt, or ends. -/
theorem loop_cases (c : Client) (attempt : ℤ) (lastErr : Option BroadcastError) :
    (c.loop attempt lastErr = .post attempt ∧ attempt ≤ c.retryMax) ∨
      c.loop attempt lastErr = .release lastErr := by
  unfold Client.loop
  split_ifs with hle
  · exact .inl ⟨rfl, hle⟩
  · exact .inr rfl

/-- After an attempt the call ends or goes into the backoff. -/
theorem attempted_cases (c : Client) (k : Call) (attempt : ℤ)
    (r : Except BroadcastError (ℕ × Bytes)) :
    (∃ result, (c.attempted k attempt r).point = .release result) ∨
      ∃ e, (c.attempted k attempt r).point = .sleep attempt e := by
  have hfailed : ∀ e b, (∃ result, c.failed attempt e b = .release result) ∨
      ∃ e', c.failed attempt e b = .sleep attempt e' := by
    intro e b
    unfold Client.failed
    split_ifs
    · exact .inl ⟨_, rfl⟩
    · exact .inr ⟨_, rfl⟩
  unfold Client.attempted
  split
  · split_ifs
    · exact .inl ⟨_, rfl⟩
    · exact hfailed _ _
  · exact hfailed _ _

theorem attempted_done (c : Client) (k : Call) (attempt : ℤ)
    (r : Except BroadcastError (ℕ × Bytes)) : (c.attempted k attempt r).done = k.done := by
  unfold Client.attempted
  split
  · split_ifs <;> rfl
  · rfl

/-! ## What a call has seen -/

/-- Nothing that ends the loop has been seen. -/
structure Retrying (answers : List Answer) (observed : Bool) : Prop where
  observed : observed = false
  answers : ∀ a ∈ answers, a.Retried

/-- The error is that of the last answer. When no request can be built, there is none. -/
def LastError (parseError : Bytes → Option Bytes) (c : Client) (answers : List Answer)
    (e : BroadcastError) : Prop :=
  (∃ a, answers.getLast? = some a ∧ a.error = some e) ∨
    ∃ cause, c.refusal parseError = some cause ∧ e = .build cause

/-- The result is nil when a request was accepted, and otherwise, without cancellation,
the error of the last one. -/
structure Ended (parseError : Bytes → Option Bytes) (c : Client) (answers : List Answer)
    (observed : Bool) (result : Option BroadcastError) : Prop where
  accepted : result = none ↔ ∃ a ∈ answers, a.status = some 202
  last : ∀ e, result = some e → observed = false → LastError parseError c answers e

/-- What holds of a call at the point where it stands. -/
def Call.At (parseError : Bytes → Option Bytes) (c : Client) (k : Call) : Point → Prop
  | .acquire => Retrying k.answers k.observed ∧ k.sent = 0 ∧ k.answers = []
  | .post attempt =>
    Retrying k.answers k.observed ∧ k.sent = k.answers.length ∧ k.sent < attempt ∧
      attempt ≤ c.retryMax
  | .inFlight attempt =>
    Retrying k.answers k.observed ∧ k.sent = k.answers.length + 1 ∧ k.sent ≤ attempt ∧
      attempt ≤ c.retryMax
  | .sleep attempt _ =>
    Retrying k.answers k.observed ∧ k.sent = k.answers.length ∧ k.sent ≤ attempt ∧
      attempt < c.retryMax
  | .release result =>
    Ended parseError c k.answers k.observed result ∧ k.sent = k.answers.length ∧
      k.sent ≤ c.retryMax
  | .returned result =>
    Ended parseError c k.answers k.observed result ∧ k.sent = k.answers.length ∧
      k.sent ≤ c.retryMax

/-- The invariant of a call. Without a URL nothing is sent. -/
def Call.OK (parseError : Bytes → Option Bytes) (c : Client) (k : Call) : Prop :=
  (c.refusal parseError ≠ none → k.sent = 0) ∧ k.At parseError c k.point

/-- A call whose context was seen to be done ends with that error. -/
theorem Retrying.ended_context {answers : List Answer} {observed : Bool}
    (h : Retrying answers observed) : Ended parseError c answers true (some .context) := by
  refine ⟨⟨fun h0 => (by cases h0), ?_⟩, fun e _ h0 => by cases h0⟩
  rintro ⟨a, ha, h0⟩
  exact absurd h0 (h.answers a ha).ne_accepted

/-- The end of a turn that was not accepted keeps the invariant. -/
theorem ok_failed {attempt : ℤ} {e : BroadcastError} {retryable : Bool}
    (hurl : c.refusal parseError ≠ none → k.sent = 0)
    (hretry : retryable = true → Retrying k.answers k.observed)
    (hnot : ∀ a ∈ k.answers, a.status ≠ some 202)
    (hlast : LastError parseError c k.answers e) (hsent : k.sent = k.answers.length)
    (hle : k.sent ≤ attempt) (hmax : attempt ≤ c.retryMax) :
    Call.OK parseError c { k with point := c.failed attempt e retryable } := by
  refine ⟨hurl, ?_⟩
  unfold Client.failed
  dsimp only
  split_ifs with hstop
  · refine ⟨⟨⟨fun h0 => (by cases h0), ?_⟩, fun e' he' _ => ?_⟩, hsent, hle.trans hmax⟩
    · rintro ⟨a, ha, h0⟩
      exact absurd h0 (hnot a ha)
    · cases he'
      exact hlast
  · push Not at hstop
    have hr := hretry hstop.1
    exact ⟨hr, hsent, hle, lt_of_le_of_ne hmax hstop.2⟩

/-- An error ends the turn; the context is looked at. -/
theorem ok_attempted_error {attempt : ℤ} {e : BroadcastError}
    (hurl : c.refusal parseError ≠ none → k.sent = 0) (hanswers : ∀ a ∈ k.answers, a.Retried)
    (hlast : LastError parseError c k.answers e) (hsent : k.sent = k.answers.length)
    (hle : k.sent ≤ attempt) (hmax : attempt ≤ c.retryMax) :
    (c.attempted k attempt (.error e)).OK parseError c :=
  ok_failed (k := { k with observed := k.done }) hurl
    (fun hdone => ⟨by simpa using hdone, hanswers⟩) (fun a ha => (hanswers a ha).ne_accepted) hlast
    hsent hle hmax

theorem Retrying.concat {answers : List Answer} {observed : Bool} (h : Retrying answers observed)
    {a : Answer} (ha : a.Retried) : ∀ b ∈ answers ++ [a], b.Retried := by
  intro b hb
  rcases List.mem_append.1 hb with hb | hb
  · exact h.answers b hb
  · rw [List.mem_singleton.1 hb]
    exact ha

/-- An answer ends the turn. -/
theorem ok_answered {attempt : ℤ} (a : Answer) (hurl : c.refusal parseError ≠ none → k.sent = 0)
    (hr : Retrying k.answers k.observed) (hsent : k.sent = k.answers.length + 1)
    (hle : k.sent ≤ attempt) (hmax : attempt ≤ c.retryMax) :
    (c.attempted { k with answers := k.answers ++ [a] } attempt a.read).OK parseError c := by
  have hlen : k.sent = (k.answers ++ [a]).length := by
    rw [List.length_append, List.length_singleton, hsent]
  have hlast : (k.answers ++ [a]).getLast? = some a := List.getLast?_concat
  cases a with
  | failed cause =>
    exact ok_attempted_error (k := { k with answers := k.answers ++ [.failed cause] }) hurl
      (hr.concat fun status h0 => by cases h0) (.inl ⟨_, hlast, rfl⟩) hlen hle hmax
  | response status body cut =>
    unfold Answer.read Client.attempted
    dsimp only
    split_ifs with haccepted
    · -- accepted: this is the last answer
      refine ⟨hurl, ⟨⟨fun _ => ?_, fun _ => rfl⟩, fun e h0 => by cases h0⟩, hlen, hle.trans hmax⟩
      exact ⟨_, List.mem_append_right _ List.mem_cons_self, congrArg some haccepted⟩
    · refine ok_failed (k := { k with answers := k.answers ++ [.response status body cut] }) hurl
        (fun hretry => ⟨hr.observed, hr.concat ?_⟩) ?_
        (.inl ⟨_, hlast, if_neg haccepted⟩) hlen hle hmax
      · rintro status' h0
        cases h0
        simpa using hretry
      · intro b hb
        rcases List.mem_append.1 hb with hb | hb
        · exact (hr.answers b hb).ne_accepted
        · rw [List.mem_singleton.1 hb]
          exact fun h0 => haccepted (Option.some.inj h0)

theorem ok_loop {attempt : ℤ} {lastErr : Option BroadcastError}
    (hurl : c.refusal parseError ≠ none → k.sent = 0) (hr : Retrying k.answers k.observed)
    (hsent : k.sent = k.answers.length) (hlt : k.sent < attempt) (hmax : attempt ≤ c.retryMax) :
    Call.OK parseError c { k with point := c.loop attempt lastErr } := by
  rw [Client.loop, if_pos hmax]
  exact ⟨hurl, hr, hsent, hlt, hmax⟩

/-- **Every step keeps the invariant of a call.** -/
theorem Effect.ok (hc : 1 ≤ c.retryMax) (he : Effect parseError c k n k' n')
    (hk : k.OK parseError c) : k'.OK parseError c := by
  obtain ⟨hurl, hat⟩ := hk
  cases he with
  | none => exact ⟨hurl, hat⟩
  | cancel => exact ⟨hurl, hat⟩
  | slot h hfree =>
    rw [h] at hat
    obtain ⟨hr, hsent, hanswers⟩ := hat
    exact ok_loop hurl hr (by rw [hsent, hanswers]; rfl) (by omega) hc
  | noSlot h =>
    rw [h] at hat
    obtain ⟨hr, hsent, hanswers⟩ := hat
    exact ⟨hurl, hr.ended_context, by rw [hsent, hanswers]; rfl, by dsimp only; omega⟩
  | unsent h hcause =>
    rw [h] at hat
    obtain ⟨hr, hsent, hlt, hmax⟩ := hat
    exact ok_attempted_error hurl hr.answers (.inr ⟨_, hcause, rfl⟩) hsent hlt.le hmax
  | sent h hnone =>
    rw [h] at hat
    obtain ⟨hr, hsent, hlt, hmax⟩ := hat
    refine ⟨fun h0 => absurd hnone h0, hr, by dsimp only; omega, ?_, hmax⟩
    dsimp only
    omega
  | answered a h =>
    rw [h] at hat
    obtain ⟨hr, hsent, hle, hmax⟩ := hat
    exact ok_answered a hurl hr hsent hle hmax
  | woken h =>
    rw [h] at hat
    obtain ⟨hr, hsent, hle, hmax⟩ := hat
    exact ok_loop hurl hr hsent (by omega) (by omega)
  | gaveUp h =>
    rw [h] at hat
    obtain ⟨hr, hsent, hle, hmax⟩ := hat
    exact ⟨hurl, hr.ended_context, hsent, by dsimp only; omega⟩
  | released h hn =>
    rw [h] at hat
    obtain ⟨hend, hsent, hmax⟩ := hat
    exact ⟨hurl, hend, hsent, hmax⟩

theorem ok_start : Call.start.OK parseError c :=
  ⟨fun _ => rfl, ⟨rfl, fun _ ha => absurd ha List.not_mem_nil⟩, rfl, rfl⟩

/-! ## After the end -/

/-- The call has left the loop. -/
def Point.Over : Point → Prop
  | .release _ => True
  | .returned _ => True
  | _ => False

/-- A call that has left the loop sends nothing any more. -/
theorem Effect.over (he : Effect parseError c k n k' n') (hk : k.point.Over) :
    k'.point.Over ∧ k'.sent = k.sent := by
  cases he with
  | none => exact ⟨hk, rfl⟩
  | cancel => exact ⟨hk, rfl⟩
  | released h hn => exact ⟨trivial, rfl⟩
  | slot h _ => rw [h] at hk; exact hk.elim
  | noSlot h => rw [h] at hk; exact hk.elim
  | unsent h _ => rw [h] at hk; exact hk.elim
  | sent h _ => rw [h] at hk; exact hk.elim
  | answered _ h => rw [h] at hk; exact hk.elim
  | woken h => rw [h] at hk; exact hk.elim
  | gaveUp h => rw [h] at hk; exact hk.elim

/-- What is not retried, and a cancellation that was seen, ends the loop. -/
theorem Call.OK.over (hk : k.OK parseError c)
    (h : (∃ a ∈ k.answers, ¬a.Retried) ∨ k.observed = true) : k.point.Over := by
  have hgoes : ¬Retrying k.answers k.observed := by
    rintro ⟨hobserved, hanswers⟩
    rcases h with ⟨a, ha, hnot⟩ | h
    · exact hnot (hanswers a ha)
    · rw [hobserved] at h
      cases h
  have hat := hk.2
  cases hp : k.point with
  | acquire => rw [hp] at hat; exact hgoes hat.1
  | post attempt => rw [hp] at hat; exact hgoes hat.1
  | inFlight attempt => rw [hp] at hat; exact hgoes hat.1
  | sleep attempt lastErr => rw [hp] at hat; exact hgoes hat.1
  | release result => trivial
  | returned result => trivial

/-! ## Slots -/

/-- The slots a call holds. -/
def Point.slots : Point → ℕ
  | .acquire => 0
  | .returned _ => 0
  | _ => 1

theorem slots_loop (c : Client) (attempt : ℤ) (lastErr : Option BroadcastError) :
    (c.loop attempt lastErr).slots = 1 := by
  rcases loop_cases c attempt lastErr with ⟨h, -⟩ | h
  · rw [h]
    rfl
  · rw [h]
    rfl

theorem slots_attempted (c : Client) (k : Call) (attempt : ℤ)
    (r : Except BroadcastError (ℕ × Bytes)) : (c.attempted k attempt r).point.slots = 1 := by
  rcases attempted_cases c k attempt r with ⟨result, h⟩ | ⟨e, h⟩
  · rw [h]
    rfl
  · rw [h]
    rfl

/-- A slot is taken and given back together with the channel's element. -/
theorem Effect.slots (he : Effect parseError c k n k' n') :
    n' + k.point.slots = n + k'.point.slots ∧ (n ≤ c.slots → n' ≤ c.slots) := by
  cases he with
  | none => exact ⟨rfl, id⟩
  | cancel => exact ⟨rfl, id⟩
  | slot h hfree => rw [h, slots_loop]; exact ⟨rfl, fun _ => hfree⟩
  | noSlot h => rw [h]; exact ⟨rfl, id⟩
  | unsent h _ => rw [h, slots_attempted]; exact ⟨rfl, id⟩
  | sent h _ => rw [h]; exact ⟨rfl, id⟩
  | answered _ h => rw [h, slots_attempted]; exact ⟨rfl, id⟩
  | woken h => rw [h, slots_loop]; exact ⟨rfl, id⟩
  | gaveUp h => rw [h]; exact ⟨rfl, id⟩
  | released h hn =>
    rw [h]
    refine ⟨?_, fun hle => by omega⟩
    change n - 1 + 1 = n + 0
    omega

/-! ## The end of a call -/

/-- How many steps a call at a point has still to take, at most. -/
def Client.rank (c : Client) : Point → ℕ
  | .acquire => 3 * c.retryMax.toNat + 2
  | .post attempt => 3 * (c.retryMax - attempt).toNat + 4
  | .inFlight attempt => 3 * (c.retryMax - attempt).toNat + 3
  | .sleep attempt _ => 3 * (c.retryMax - attempt).toNat + 2
  | .release _ => 1
  | .returned _ => 0

/-- The context of a call may be canceled, too. -/
def Call.rank (c : Client) (k : Call) : ℕ := c.rank k.point + if k.done then 0 else 1

theorem rank_attempted (c : Client) (k : Call) (attempt : ℤ)
    (r : Except BroadcastError (ℕ × Bytes)) :
    c.rank (c.attempted k attempt r).point < c.rank (.inFlight attempt) := by
  rcases attempted_cases c k attempt r with ⟨result, h⟩ | ⟨e, h⟩
  · rw [h, Client.rank, Client.rank]
    omega
  · rw [h, Client.rank, Client.rank]
    omega

theorem rank_loop_lt {attempt : ℤ} (lastErr : Option BroadcastError) {m : ℕ} (hm : 1 < m)
    (h : attempt ≤ c.retryMax → 3 * (c.retryMax - attempt).toNat + 4 < m) :
    c.rank (c.loop attempt lastErr) < m := by
  rcases loop_cases c attempt lastErr with ⟨hp, hle⟩ | hp
  · rw [hp]
    exact h hle
  · rw [hp]
    exact hm

theorem rank_lt_of_point (hdone : k'.done = k.done) (h : c.rank k'.point < c.rank k.point) :
    k'.rank c < k.rank c := by
  rw [Call.rank, Call.rank, hdone]
  exact Nat.add_lt_add_right h _

/-- A step brings the call closer to its end, or has no effect. -/
theorem Effect.rank (he : Effect parseError c k n k' n') :
    (k' = k ∧ n' = n) ∨ k'.rank c < k.rank c := by
  cases he with
  | none => exact .inl ⟨rfl, rfl⟩
  | cancel =>
    cases hdone : k.done with
    | true => exact .inl ⟨by rw [← hdone], rfl⟩
    | false =>
      right
      simp [Call.rank, hdone]
  | slot h _ =>
    refine .inr (rank_lt_of_point rfl (rank_loop_lt _ ?_ fun hle => ?_))
    · rw [h, Client.rank]
      omega
    · rw [h, Client.rank]
      omega
  | noSlot h =>
    refine .inr (rank_lt_of_point rfl ?_)
    rw [h, Client.rank, Client.rank]
    omega
  | unsent h _ =>
    refine .inr (rank_lt_of_point (attempted_done c _ _ _) ((rank_attempted c _ _ _).trans ?_))
    rw [h, Client.rank, Client.rank]
    omega
  | sent h _ =>
    refine .inr (rank_lt_of_point rfl ?_)
    rw [h, Client.rank, Client.rank]
    omega
  | answered _ h =>
    refine .inr (rank_lt_of_point (attempted_done c _ _ _) ?_)
    rw [h]
    exact rank_attempted c _ _ _
  | woken h =>
    refine .inr (rank_lt_of_point rfl (rank_loop_lt _ ?_ fun hle => ?_))
    · rw [h, Client.rank]
      omega
    · rw [h, Client.rank]
      omega
  | gaveUp h =>
    refine .inr (rank_lt_of_point rfl ?_)
    rw [h, Client.rank, Client.rank]
    omega
  | released h _ =>
    refine .inr (rank_lt_of_point rfl ?_)
    rw [h, Client.rank, Client.rank]
    omega

/-! ## All calls -/

variable {s : State}

theorem step_act {i : ℕ} (a : Action) (hk : s.calls[i]? = some k) :
    c.step parseError s (.act i a) =
      ⟨(c.act parseError k s.used a).2, s.calls.set i (c.act parseError k s.used a).1⟩ := by
  rw [Client.step, hk]

theorem step_act_none {i : ℕ} (a : Action) (hk : s.calls[i]? = none) :
    c.step parseError s (.act i a) = s := by
  rw [Client.step, hk]

/-- The slots in use are those the calls hold, and no more than there are. -/
structure State.OK (parseError : Bytes → Option Bytes) (c : Client) (s : State) : Prop where
  calls : ∀ k ∈ s.calls, k.OK parseError c
  slots : s.used = (s.calls.map fun k => k.point.slots).sum
  capacity : s.used ≤ c.slots

theorem State.OK.step (hc : 1 ≤ c.retryMax) (hs : s.OK parseError c) (e : Event) :
    (c.step parseError s e).OK parseError c := by
  cases e with
  | call =>
    refine ⟨List.forall_mem_append.2 ⟨hs.calls, List.forall_mem_singleton.2 ok_start⟩, ?_,
      hs.capacity⟩
    rw [Client.step, List.map_append, List.sum_append, ← hs.slots]
    rfl
  | act i a =>
    cases hk : s.calls[i]? with
    | none =>
      rw [step_act_none a hk]
      exact hs
    | some k =>
      have he := act_effect parseError c k s.used a
      have hsum := sum_map_set (b := (c.act parseError k s.used a).1) (fun k => k.point.slots) hk
      rw [step_act a hk]
      refine ⟨forall_set hs.calls (he.ok hc (hs.calls k (List.mem_of_getElem? hk))), ?_,
        he.slots.2 hs.capacity⟩
      have hmoved := he.slots.1
      have hbefore := hs.slots
      dsimp only at hsum ⊢
      omega

theorem ok_run (parseError : Bytes → Option Bytes) (hc : 1 ≤ c.retryMax) (es : List Event) :
    (run (c.step parseError) State.start es).OK parseError c := by
  refine Along.inv (C := fun _ _ => True) (fun s e hs _ => hs.step hc e)
    (Along.of_forall fun _ _ _ => trivial) ⟨?_, rfl, Nat.zero_le _⟩
  exact fun k hk => absurd hk List.not_mem_nil

/-- A call that has left the loop sends nothing, whatever happens. -/
theorem over_run {i : ℕ} (hk : s.calls[i]? = some k) (hover : k.point.Over) (fs : List Event) :
    ∃ k', (run (c.step parseError) s fs).calls[i]? = some k' ∧ k'.sent = k.sent := by
  have hinv : ∃ k', (run (c.step parseError) s fs).calls[i]? = some k' ∧ k'.point.Over ∧
      k'.sent = k.sent := by
    refine Along.inv (C := fun _ _ => True)
      (I := fun s : State => ∃ k', s.calls[i]? = some k' ∧ k'.point.Over ∧ k'.sent = k.sent) ?_
      (Along.of_forall fun _ _ _ => trivial) ⟨k, hk, hover, rfl⟩
    rintro s e ⟨k₁, hk₁, hover₁, hsent₁⟩ -
    cases e with
    | call =>
      have hi := (List.getElem?_eq_some_iff.1 hk₁).1
      exact ⟨k₁, (List.getElem?_append_left hi).trans hk₁, hover₁, hsent₁⟩
    | act j a =>
      cases hj : s.calls[j]? with
      | none =>
        rw [step_act_none a hj]
        exact ⟨k₁, hk₁, hover₁, hsent₁⟩
      | some k₂ =>
        rw [step_act a hj]
        by_cases hij : j = i
        · -- the call itself
          subst hij
          obtain rfl : k₁ = k₂ := Option.some.inj (hk₁.symm.trans hj)
          obtain ⟨ho, hs⟩ := (act_effect parseError c k₁ s.used a).over hover₁
          have hi := (List.getElem?_eq_some_iff.1 hk₁).1
          exact ⟨_, List.getElem?_set_self hi, ho, hs.trans hsent₁⟩
        · exact ⟨k₁, (List.getElem?_set_ne hij).trans hk₁, hover₁, hsent₁⟩
  obtain ⟨k', hk', -, hsent⟩ := hinv
  exact ⟨k', hk', hsent⟩

/-- Without new calls, only finitely many steps have an effect. -/
theorem acc_run (parseError : Bytes → Option Bytes) (c : Client) (s : State) :
    Acc (Moves (c.step parseError) fun _ e => e ≠ .call) s := by
  refine acc_moves (I := fun _ => True)
    (measure fun s : State => (s.calls.map fun k => k.rank c).sum).wf (fun _ _ _ _ => trivial) ?_
    trivial
  rintro s e - he hne
  cases e with
  | call => exact absurd rfl he
  | act i a =>
    cases hk : s.calls[i]? with
    | none => exact absurd (step_act_none a hk) hne
    | some k =>
      rw [step_act a hk] at hne ⊢
      rcases (act_effect parseError c k s.used a).rank with ⟨hsame, hused⟩ | hlt
      · rw [hsame, hused, set_of_getElem? hk] at hne
        exact absurd rfl hne
      · have hsum := sum_map_set (b := (c.act parseError k s.used a).1) (fun k => k.rank c) hk
        change ((s.calls.set i _).map fun k => k.rank c).sum < (s.calls.map fun k => k.rank c).sum
        omega

/-- An action without effect on the state has none on the call. -/
theorem act_eq_of_step_eq {i : ℕ} {a : Action} (hk : s.calls[i]? = some k)
    (h : c.step parseError s (.act i a) = s) : (c.act parseError k s.used a).1 = k := by
  rw [step_act a hk] at h
  have hi := (List.getElem?_eq_some_iff.1 hk).1
  have hcall := congrArg (fun s : State => s.calls[i]?) h
  dsimp only at hcall
  rw [List.getElem?_set_self hi, hk] at hcall
  exact Option.some.inj hcall

/-- A call that holds a slot can go on. -/
theorem slots_eq_zero_of_stuck (hs : s.OK parseError c)
    (hstuck : ∀ i a, c.step parseError s (.act i a) = s) :
    ∀ k ∈ s.calls, k.point.slots = 0 := by
  intro k hk
  obtain ⟨i, hi⟩ := List.mem_iff_getElem?.1 hk
  have hact : ∀ a, (c.act parseError k s.used a).1.point = k.point := fun a =>
    congrArg Call.point (act_eq_of_step_eq hi (hstuck i a))
  cases hp : k.point with
  | acquire => rfl
  | returned result => rfl
  | post attempt =>
    have h := hact .send
    simp only [Client.act, hp] at h
    split at h
    · rcases attempted_cases c k attempt _ with ⟨result, h0⟩ | ⟨e, h0⟩
      · cases h0.symm.trans h
      · cases h0.symm.trans h
    · cases h
  | inFlight attempt =>
    have h := hact (.answer (.failed []))
    simp only [Client.act, hp] at h
    rcases attempted_cases c _ attempt _ with ⟨result, h0⟩ | ⟨e, h0⟩
    · cases h0.symm.trans h
    · cases h0.symm.trans h
  | sleep attempt lastErr =>
    have h := hact (.wake true)
    simp only [Client.act, hp, if_true] at h
    rcases loop_cases c (attempt + 1) (some lastErr) with ⟨h0, -⟩ | h0
    · cases h0.symm.trans h
    · cases h0.symm.trans h
  | release result =>
    -- its own slot is in use
    have hused : 0 < s.used := by
      have hle := List.single_le_sum (fun _ _ => Nat.zero_le _) _
        (List.mem_map.2 ⟨k, hk, rfl⟩ : k.point.slots ∈ s.calls.map fun k => k.point.slots)
      rw [← hs.slots, hp] at hle
      exact hle
    have h := hact .release
    simp only [Client.act, hp, if_pos hused] at h
    cases h

/-- **No call is left behind.** When no call can act any more, all have returned and all
slots are free. -/
theorem returned_of_stuck (hslots : 0 < c.slots) (hs : s.OK parseError c)
    (hstuck : ∀ i a, c.step parseError s (.act i a) = s) :
    s.used = 0 ∧ ∀ k ∈ s.calls, ∃ result, k.point = .returned result := by
  have hzero := slots_eq_zero_of_stuck hs hstuck
  have hused : s.used = 0 := by
    rw [hs.slots, List.sum_eq_zero_iff]
    exact List.forall_mem_map.2 hzero
  refine ⟨hused, fun k hk => ?_⟩
  obtain ⟨i, hi⟩ := List.mem_iff_getElem?.1 hk
  have hslot := hzero k hk
  cases hp : k.point with
  | returned result => exact ⟨result, rfl⟩
  | acquire =>
    -- there is a free slot
    have h := congrArg Call.point (act_eq_of_step_eq hi (hstuck i (.acquire true)))
    simp only [Client.act, hp, if_true, hused, if_pos hslots] at h
    rcases loop_cases c 1 none with ⟨h0, -⟩ | h0
    · cases h0.symm.trans h
    · cases h0.symm.trans h
  | post attempt => rw [hp] at hslot; cases hslot
  | inFlight attempt => rw [hp] at hslot; cases hslot
  | sleep attempt lastErr => rw [hp] at hslot; cases hslot
  | release result => rw [hp] at hslot; cases hslot

/-! ## Broadcasting -/

/-- The requests of a call that are in flight. -/
def Point.requests : Point → ℕ
  | .inFlight _ => 1
  | _ => 0

theorem requests_le_slots (p : Point) : p.requests ≤ p.slots := by
  cases p with
  | inFlight attempt => exact le_rfl
  | _ => exact Nat.zero_le _

theorem one_le_slots (opts : Options) : 1 ≤ opts.slots := by
  unfold Options.slots defaultConcurrency
  split_ifs
  · decide
  · omega

/-- What is known of a call, wherever it stands. -/
theorem Call.OK.sent (hk : k.OK parseError c) (hc : 1 ≤ c.retryMax) :
    k.answers.length ≤ k.sent ∧ k.sent ≤ c.retryMax := by
  have hat := hk.2
  cases hp : k.point with
  | acquire =>
    rw [hp] at hat
    obtain ⟨-, hsent, hanswers⟩ := hat
    rw [hsent, hanswers]
    exact ⟨le_rfl, by omega⟩
  | post attempt =>
    rw [hp] at hat
    obtain ⟨-, hsent, hlt, hmax⟩ := hat
    omega
  | inFlight attempt =>
    rw [hp] at hat
    obtain ⟨-, hsent, hle, hmax⟩ := hat
    omega
  | sleep attempt lastErr =>
    rw [hp] at hat
    obtain ⟨-, hsent, hle, hmax⟩ := hat
    omega
  | release result =>
    rw [hp] at hat
    obtain ⟨-, hsent, hmax⟩ := hat
    exact ⟨hsent.ge, hmax⟩
  | returned result =>
    rw [hp] at hat
    obtain ⟨-, hsent, hmax⟩ := hat
    exact ⟨hsent.ge, hmax⟩

/-- **Broadcasts are retried exactly.** In every state of every run, with any number of
calls at once:

* a call that has returned has returned nil exactly when a request it sent was answered
  202; without that, and when it has not seen its context done, the error is that of its
  last request;
* it has sent at most `max RetryMax 1` requests, and sends none after a 202, after an
  answer that is neither 429 nor at least 500, or after it has seen its context done;
* the slots in use are those held by calls that have not returned, so no more requests
  are in flight than the concurrency allows;
* every call returns: without new calls only finitely many steps have an effect, and where
  none has, all calls have returned and all slots are free. -/
theorem broadcast_retries_exact (parseError : Bytes → Option Bytes) (opts : Options)
    (es : List Event) :
    let c := new opts
    let s := run (c.step parseError) State.start es
    (∀ (i : ℕ) (k : Call), s.calls[i]? = some k →
      (∀ result, k.point = .returned result →
        (result = none ↔ ∃ a ∈ k.answers, a.status = some 202) ∧
        ∀ e, result = some e → k.observed = false → LastError parseError c k.answers e) ∧
      (k.answers.length ≤ k.sent ∧ k.sent ≤ max opts.retryMax 1) ∧
      ((∃ a ∈ k.answers, ∃ status, a.status = some status ∧
          (status = 202 ∨ status ≠ 429 ∧ status < 500)) ∨ k.observed = true →
        ∀ fs, ∃ k', (run (c.step parseError) s fs).calls[i]? = some k' ∧ k'.sent = k.sent)) ∧
    (s.used = (s.calls.map fun k => k.point.slots).sum ∧
      (s.calls.map fun k => k.point.requests).sum ≤ s.used ∧ s.used ≤ opts.slots) ∧
    Acc (Moves (c.step parseError) fun _ e => e ≠ .call) s ∧
    ((∀ i a, c.step parseError s (.act i a) = s) →
      s.used = 0 ∧ ∀ k ∈ s.calls, ∃ result, k.point = .returned result) := by
  have hretry : 1 ≤ (new opts).retryMax := le_max_right _ _
  have hslots := one_le_slots opts
  have hcap : ((new opts).slots : ℤ) = opts.slots := Int.toNat_of_nonneg (by omega)
  have hs := ok_run parseError hretry es
  refine ⟨fun i k hk => ?_, ⟨hs.slots, ?_, ?_⟩, acc_run parseError _ _,
    fun hstuck => returned_of_stuck (by omega) hs hstuck⟩
  · have hok := hs.calls k (List.mem_of_getElem? hk)
    refine ⟨fun result hp => ?_, hok.sent hretry, fun hstop fs => over_run hk (hok.over ?_) fs⟩
    · have hat := hok.2
      rw [hp] at hat
      exact ⟨hat.1.accepted, hat.1.last⟩
    · -- such an answer is not retried
      refine hstop.imp_left ?_
      rintro ⟨a, ha, status, hstatus, hfinal⟩
      refine ⟨a, ha, fun hretried => ?_⟩
      have := hretried status hstatus
      omega
  · rw [hs.slots]
    exact List.sum_le_sum fun k _ => requests_le_slots k.point
  · rw [← hcap]
    exact_mod_cast hs.capacity

/-- Two attempts and one slot. -/
def Concrete.twoAttempts : Options := ⟨[], 1, 2⟩

/-- A call takes the slot, sends its request and is answered. -/
def Concrete.firstAnswer (a : Answer) : List Event :=
  [.call, .act 0 (.acquire true), .act 0 .send, .act 0 (.answer a)]

/-- It wakes, sends the request again, is accepted and gives the slot back. -/
def Concrete.secondAccepted : List Event :=
  [.act 0 (.wake true), .act 0 .send, .act 0 (.answer (.response 202 [] true)), .act 0 .release]

/-- A call that is told to slow down and is then accepted, the body cut short, sends no
third request. -/
theorem broadcast_accepted_second :
    ∃ k', (run ((new Concrete.twoAttempts).step fun _ => none)
      (run ((new Concrete.twoAttempts).step fun _ => none) State.start
        (Concrete.firstAnswer (.response 429 [] false) ++ Concrete.secondAccepted))
      [.act 0 .send]).calls[0]? = some k' ∧ k'.sent = 2 := by
  have hk : (run ((new Concrete.twoAttempts).step fun _ => none) State.start
      (Concrete.firstAnswer (.response 429 [] false) ++ Concrete.secondAccepted)).calls[0]? =
        some ⟨.returned none, false, 2, [.response 429 [] false, .response 202 [] true], false⟩ := by
    decide +kernel
  have h := (broadcast_retries_exact (fun _ => none) Concrete.twoAttempts
    (Concrete.firstAnswer (.response 429 [] false) ++ Concrete.secondAccepted)).1 0 _ hk
  exact h.2.2 (.inl ⟨.response 202 [] true, by decide, 202, rfl, .inl rfl⟩) _

/-- An answer with the status 600, which is neither 429 nor 5xx, is retried. -/
theorem broadcast_retries_six_hundred :
    let c := new Concrete.twoAttempts
    let s := run (c.step fun _ => none) State.start (Concrete.firstAnswer (.response 600 [] false))
    s.calls = [⟨.sleep 1 (.rejected 600 []), false, 1, [.response 600 [] false], false⟩] ∧
    (run (c.step fun _ => none) s Concrete.secondAccepted).calls =
      [⟨.returned none, false, 2, [.response 600 [] false, .response 202 [] true], false⟩] ∧
    600 ≠ 429 ∧ 600 / 100 ≠ 5 := by
  decide +kernel

end TxGen.Arcade
