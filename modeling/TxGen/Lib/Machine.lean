import Mathlib.Data.List.Basic

/-!
# Runs of a step function

A machine is a state type, an event type and a total step function; an event
that is not enabled leaves the state as it is. `run` applies a list of events,
and `Along C` says that every event of a run meets the condition `C` in the
state it is taken in. An invariant of the steps that meet `C` is an invariant of
every run along `C` (`Along.inv`).
-/

namespace Lib

variable {σ ε : Type*} (step : σ → ε → σ)

/-- The state after the events `es`, from `s`. -/
def run (s : σ) (es : List ε) : σ := es.foldl step s

/-- Every event of `es` meets `C` in the state it is taken in. -/
def Along (C : σ → ε → Prop) : σ → List ε → Prop
  | _, [] => True
  | s, e :: es => C s e ∧ Along C (step s e) es

instance Along.decidable {C : σ → ε → Prop} [∀ s e, Decidable (C s e)] :
    ∀ (s : σ) (es : List ε), Decidable (Along step C s es)
  | _, [] => isTrue trivial
  | s, e :: es =>
    @instDecidableAnd (C s e) (Along step C (step s e) es) _ (Along.decidable (step s e) es)

variable {step}

@[simp] theorem run_nil (s : σ) : run step s [] = s := rfl

@[simp] theorem run_cons (s : σ) (e : ε) (es : List ε) :
    run step s (e :: es) = run step (step s e) es := rfl

theorem run_append (s : σ) (es fs : List ε) :
    run step s (es ++ fs) = run step (run step s es) fs := List.foldl_append

theorem run_concat (s : σ) (es : List ε) (e : ε) :
    run step s (es ++ [e]) = step (run step s es) e := run_append s es [e]

theorem Along.append {C : σ → ε → Prop} {s : σ} {es fs : List ε} :
    Along step C s (es ++ fs) ↔ Along step C s es ∧ Along step C (run step s es) fs := by
  induction es generalizing s with
  | nil => simp [Along]
  | cons e es ih => simp [Along, ih, and_assoc]

/-- A condition that every event meets in every state. -/
theorem Along.of_forall {C : σ → ε → Prop} {s : σ} {es : List ε} (h : ∀ e ∈ es, ∀ s, C s e) :
    Along step C s es := by
  induction es generalizing s with
  | nil => trivial
  | cons e es ih =>
    exact ⟨h e List.mem_cons_self s, ih fun e he => h e (List.mem_cons_of_mem _ he)⟩

theorem Along.and {C D : σ → ε → Prop} {s : σ} {es : List ε} (hC : Along step C s es)
    (hD : Along step D s es) : Along step (fun s e => C s e ∧ D s e) s es := by
  induction es generalizing s with
  | nil => trivial
  | cons e es ih => exact ⟨⟨hC.1, hD.1⟩, ih hC.2 hD.2⟩

/-- **Invariants of steps are invariants of runs.** -/
theorem Along.inv {C : σ → ε → Prop} {I : σ → Prop} (hstep : ∀ s e, I s → C s e → I (step s e))
    {s : σ} {es : List ε} (hs : Along step C s es) (h0 : I s) : I (run step s es) := by
  induction es generalizing s with
  | nil => exact h0
  | cons e es ih => exact ih hs.2 (hstep s e h0 hs.1)

/-- **Invariants of a state with the events that led to it.** -/
theorem run_history {I : List ε → σ → Prop} {s : σ} (h0 : I [] s)
    (hstep : ∀ es e, I es (run step s es) → I (es ++ [e]) (step (run step s es) e))
    (es : List ε) : I es (run step s es) := by
  -- after the events `fs` it goes on to hold
  have key : ∀ fs, I fs (run step s fs) → I (fs ++ es) (run step s (fs ++ es)) := by
    induction es with
    | nil =>
      intro fs h
      rwa [List.append_nil]
    | cons e es ih =>
      intro fs h
      have h' := ih (fs ++ [e]) (by rw [run_concat]; exact hstep fs e h)
      rwa [List.append_assoc] at h'
  exact key [] h0

/-- What an invariant tells of each step holds along the run. -/
theorem Along.of_inv {C D : σ → ε → Prop} {I : σ → Prop}
    (hstep : ∀ s e, I s → C s e → I (step s e)) (hD : ∀ s e, I s → C s e → D s e)
    {s : σ} {es : List ε} (hs : Along step C s es) (h0 : I s) : Along step D s es := by
  induction es generalizing s with
  | nil => trivial
  | cons e es ih => exact ⟨hD s e h0 hs.1, ih hs.2 (hstep s e h0 hs.1)⟩

/-- An invariant that rests on a fact `F` about the end of the run, when `F` at
the end of a step implies `F` before it. -/
theorem Along.inv_of_later {C : σ → ε → Prop} {F I : σ → Prop}
    (hF : ∀ s e, F (step s e) → F s)
    (hstep : ∀ s e, I s → C s e → F (step s e) → I (step s e))
    {s : σ} {es : List ε} (hs : Along step C s es) (h0 : I s) (hend : F (run step s es)) :
    I (run step s es) := by
  have key : (F (run step s es) → I (run step s es)) :=
    Along.inv (I := fun s => F s → I s)
      (fun s e ih hC hFs => hstep s e (ih (hF s e hFs)) hC hFs) hs (fun _ => h0)
  exact key hend

/-- **Simulation.** When every step of a machine is, seen through `f`, a run of another
one, then so is every run. -/
theorem exists_run_of_sim {τ δ : Type*} {step' : τ → δ → τ} {f : σ → τ}
    (h : ∀ s e, ∃ ds, f (step s e) = run step' (f s) ds) (s : σ) (es : List ε) :
    ∃ ds, f (run step s es) = run step' (f s) ds := by
  induction es generalizing s with
  | nil => exact ⟨[], rfl⟩
  | cons e es ih =>
    obtain ⟨ds, hds⟩ := h s e
    obtain ⟨ds', hds'⟩ := ih (step s e)
    refine ⟨ds ++ ds', ?_⟩
    rw [run_cons, hds', hds, run_append]

/-- `Z` holds in every state of a run. -/
def Always (step : σ → ε → σ) (Z : σ → Prop) (s : σ) (es : List ε) : Prop :=
  ∀ fs, fs <+: es → Z (run step s fs)

theorem always_cons {Z : σ → Prop} {s : σ} {e : ε} {es : List ε} :
    Always step Z s (e :: es) ↔ Z s ∧ Always step Z (step s e) es := by
  constructor
  · intro h
    exact ⟨h [] (List.nil_prefix), fun fs hfs => h (e :: fs) (List.cons_prefix_cons.2 ⟨rfl, hfs⟩)⟩
  · rintro ⟨h0, h⟩ fs hfs
    cases fs with
    | nil => exact h0
    | cons f fs =>
      obtain ⟨rfl, hrest⟩ := List.cons_prefix_cons.1 hfs
      exact h fs hrest

theorem Always.head {Z : σ → Prop} {s : σ} {es : List ε} (h : Always step Z s es) : Z s :=
  h [] List.nil_prefix

/-- **When a condition on the steps is exact.** Let `J` be kept by the steps that meet
`C` and imply `Z`. When no other step leads from `J` to a state with `Z`, a run keeps
`Z` exactly when all its steps meet `C`. -/
theorem always_iff_along {C : σ → ε → Prop} {J Z : σ → Prop}
    (hstep : ∀ s e, J s → C s e → J (step s e)) (hJ : ∀ s, J s → Z s)
    (hconv : ∀ s e, J s → Z (step s e) → C s e) {s : σ} (h0 : J s) (es : List ε) :
    Always step Z s es ↔ Along step C s es := by
  induction es generalizing s with
  | nil =>
    refine ⟨fun _ => trivial, fun _ fs hfs => ?_⟩
    rw [List.prefix_nil.1 hfs]
    exact hJ s h0
  | cons e es ih =>
    rw [always_cons]
    constructor
    · rintro ⟨-, h⟩
      have hC := hconv s e h0 h.head
      exact ⟨hC, (ih (hstep s e h0 hC)).1 h⟩
    · rintro ⟨hC, h⟩
      exact ⟨hJ s h0, (ih (hstep s e h0 hC)).2 h⟩

/-- A property that is never regained, once lost, holds in every state of a run when it
holds at the end. -/
theorem always_of_end {D : σ → ε → Prop} {K Z : σ → Prop}
    (hK : ∀ s e, K s → D s e → K (step s e)) (hlost : ∀ s e, K s → D s e → Z (step s e) → Z s)
    {s : σ} {es : List ε} (hs : Along step D s es) (h0 : K s) (hend : Z (run step s es)) :
    Always step Z s es := by
  induction es generalizing s with
  | nil =>
    intro fs hfs
    rw [List.prefix_nil.1 hfs]
    exact hend
  | cons e es ih =>
    have htail := ih hs.2 (hK s e h0 hs.1) hend
    exact always_cons.2 ⟨hlost s e h0 hs.1 htail.head, htail⟩

/-! ## The last step of a kind -/

section Last

variable {β : Type*} {f : σ → ε → Option β} {s : σ} {es : List ε} {e : ε}

variable (step) in
/-- What `f` tells of the last step of a run that it tells something of. -/
def lastOf (f : σ → ε → Option β) : σ → List ε → Option β
  | _, [] => none
  | s, e :: es => (lastOf f (step s e) es).or (f s e)

theorem lastOf_concat (f : σ → ε → Option β) (s : σ) (es : List ε) (e : ε) :
    lastOf step f s (es ++ [e]) = (f (run step s es) e).or (lastOf step f s es) := by
  induction es generalizing s with
  | nil => simp [lastOf]
  | cons d es ih => rw [List.cons_append, lastOf, ih, run_cons, lastOf, Option.or_assoc]

theorem lastOf_concat_some {b : β} (h : f (run step s es) e = some b) :
    lastOf step f s (es ++ [e]) = some b := by
  rw [lastOf_concat, h, Option.some_or]

theorem lastOf_concat_none (h : f (run step s es) e = none) :
    lastOf step f s (es ++ [e]) = lastOf step f s es := by
  rw [lastOf_concat, h, Option.none_or]

/-- The last step of a kind meets what every step meets. -/
theorem Along.of_lastOf {C : σ → ε → Prop} (hs : Along step C s es) {b : β}
    (hlast : lastOf step f s es = some b) : ∃ s' e, C s' e ∧ f s' e = some b := by
  induction es generalizing s with
  | nil => cases hlast
  | cons e es ih =>
    rw [lastOf] at hlast
    cases hrest : lastOf step f (step s e) es with
    | none =>
      rw [hrest, Option.none_or] at hlast
      exact ⟨s, e, hs.1, hlast⟩
    | some b' =>
      rw [hrest, Option.some_or] at hlast
      exact ih hs.2 (hrest.trans hlast)

end Last

variable (step) in
/-- An event that meets `C` takes `s` to another state `s'`. -/
def Moves (C : σ → ε → Prop) (s' s : σ) : Prop := ∃ e, C s e ∧ step s e = s' ∧ s' ≠ s

/-- **Termination.** When every such event goes down in a well-founded order, there
is no infinite sequence of them. -/
theorem acc_moves {C : σ → ε → Prop} {I : σ → Prop} {r : σ → σ → Prop} (hr : WellFounded r)
    (hstep : ∀ s e, I s → C s e → I (step s e))
    (hdown : ∀ s e, I s → C s e → step s e ≠ s → r (step s e) s) {s : σ} (h : I s) :
    Acc (Moves step C) s := by
  induction s using hr.induction with
  | h s ih =>
    constructor
    rintro s' ⟨e, hC, rfl, hne⟩
    exact ih _ (hdown s e h hC hne) (hstep s e h hC)

end Lib
