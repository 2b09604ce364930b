import Mathlib.Data.List.Range
import TxGen.Lib.Machine
import TxGen.Lib.Slots

/-!
# A value with a broadcast signal

Writers change a shared value and then wake its readers: they replace the current
channel by a new one and close the old one. A reader takes the current channel before
it reads the value, and then waits for the channel to be closed. Every store, load,
replacement and close is a step of its own, and any number of writers and readers
take them in any order.

Channels are numbered in the order of their creation, and `chan` is the current one.
`Inv.channels`: those before it are closed, each once, or about to be closed by the
one writer that has replaced it.
-/

namespace Lib.Signal

open scoped List

variable {α : Type*}

/-- Where a writer stands: before its store, before it replaces the channel, before it
closes the one it has replaced, or at its end. -/
inductive Writer (α : Type*)
  | call (v : α)
  | stored
  | swapped (old : ℕ)
  | returned
  deriving DecidableEq

/-- What a reader has: nothing, a channel, or also the value it read after that. -/
inductive Reader (α : Type*)
  | idle
  | fetched (c : ℕ)
  | read (c : ℕ) (v : α)
  deriving DecidableEq

/-- The value, the current channel, the closes in their order, and the parties. -/
structure State (α : Type*) where
  value : α
  chan : ℕ
  closed : List ℕ
  writers : List (Writer α)
  readers : List (Reader α)

/-- A party joins or takes its next step; a reader may also give up. -/
inductive Event (α : Type*)
  | call (v : α)
  | write (i : ℕ)
  | join
  | fetch (j : ℕ)
  | read (j : ℕ)
  | leave (j : ℕ)

/-- The channel a writer has still to close. -/
def Writer.old : Writer α → List ℕ
  | .swapped old => [old]
  | _ => []

/-- One event. -/
def step (s : State α) : Event α → State α
  | .call v => { s with writers := s.writers ++ [.call v] }
  | .write i =>
    match s.writers[i]? with
    | some (.call v) => { s with value := v, writers := s.writers.set i .stored }
    | some .stored => { s with
        chan := s.chan + 1
        writers := s.writers.set i (.swapped s.chan) }
    | some (.swapped old) => { s with
        closed := s.closed ++ [old]
        writers := s.writers.set i .returned }
    | _ => s
  | .join => { s with readers := s.readers ++ [.idle] }
  | .fetch j =>
    match s.readers[j]? with
    | some .idle => { s with readers := s.readers.set j (.fetched s.chan) }
    | _ => s
  | .read j =>
    match s.readers[j]? with
    | some (.fetched c) => { s with readers := s.readers.set j (.read c s.value) }
    | _ => s
  | .leave j => { s with readers := s.readers.set j .idle }

/-- What a reader's channel and value tell: a reader of the current channel has read
the current value, unless a writer has still to replace the channel. -/
def Reader.OK (s : State α) : Reader α → Prop
  | .idle => True
  | .fetched c => c ≤ s.chan
  | .read c v => c ≤ s.chan ∧ (c = s.chan → v = s.value ∨ .stored ∈ s.writers)

/-- The invariant. -/
structure Inv (s : State α) : Prop where
  channels : s.closed ++ s.writers.flatMap Writer.old ~ List.range s.chan
  readers : ∀ r ∈ s.readers, r.OK s

variable {s s' : State α}

/-- A reader is told the same by another state with the same channel, when the
writers that have still to replace it are there, too. -/
theorem Reader.OK.mono {r : Reader α} (h : r.OK s) (hchan : s'.chan = s.chan)
    (hval : s'.value = s.value ∨ .stored ∈ s'.writers)
    (hw : .stored ∈ s.writers → .stored ∈ s'.writers) : r.OK s' := by
  cases r with
  | idle => trivial
  | fetched c =>
    have hc : c ≤ s.chan := h
    show c ≤ s'.chan
    omega
  | read c v =>
    have hle : c ≤ s.chan := h.1
    refine ⟨by omega, fun hc => ?_⟩
    rcases h.2 (by omega) with hv | hs
    · rcases hval with he | he
      · exact Or.inl (hv.trans he.symm)
      · exact Or.inr he
    · exact Or.inr (hw hs)

/-- A new channel is told of by nobody yet. -/
theorem Reader.OK.next {r : Reader α} (h : r.OK s) (hchan : s'.chan = s.chan + 1) : r.OK s' := by
  cases r with
  | idle => trivial
  | fetched c =>
    have hc : c ≤ s.chan := h
    show c ≤ s'.chan
    omega
  | read c v =>
    have hc : c ≤ s.chan := h.1
    refine ⟨by omega, fun he => ?_⟩
    omega

theorem Inv.step (h : Inv s) (e : Event α) : Inv (step s e) := by
  cases e with
  | call v =>
    refine ⟨?_, fun r hr => (h.readers r hr).mono rfl (Or.inl rfl) fun hs => ?_⟩
    · show s.closed ++ (s.writers ++ [Writer.call v]).flatMap Writer.old ~ List.range s.chan
      rw [List.flatMap_append]
      simpa [Writer.old] using h.channels
    · exact List.mem_append_left _ hs
  | write i =>
    unfold Signal.step
    dsimp only
    split
    · rename_i v hi
      have hnew : .stored ∈ s.writers.set i .stored := mem_set_self hi
      refine ⟨?_, fun r hr => (h.readers r hr).mono rfl (Or.inr hnew) fun _ => hnew⟩
      have hp := flatMap_set_perm Writer.old (b := .stored) hi
      simp only [Writer.old, List.append_nil] at hp
      exact (List.Perm.append_left _ hp).trans h.channels
    · rename_i hi
      refine ⟨?_, fun r hr => (h.readers r hr).next rfl⟩
      have hp := flatMap_set_perm Writer.old (b := .swapped s.chan) hi
      simp only [Writer.old, List.append_nil] at hp
      show s.closed ++ (s.writers.set i (.swapped s.chan)).flatMap Writer.old ~ List.range (s.chan + 1)
      rw [List.range_succ]
      calc s.closed ++ (s.writers.set i (.swapped s.chan)).flatMap Writer.old
          ~ s.closed ++ (s.writers.flatMap Writer.old ++ [s.chan]) := List.Perm.append_left _ hp
        _ = (s.closed ++ s.writers.flatMap Writer.old) ++ [s.chan] := (List.append_assoc _ _ _).symm
        _ ~ List.range s.chan ++ [s.chan] := List.Perm.append_right _ h.channels
    · rename_i old hi
      refine ⟨?_, fun r hr => (h.readers r hr).mono rfl (Or.inl rfl) fun hs => ?_⟩
      · have hp := flatMap_set_perm Writer.old (b := .returned) hi
        simp only [Writer.old, List.append_nil] at hp
        show (s.closed ++ [old]) ++ (s.writers.set i .returned).flatMap Writer.old ~ _
        calc (s.closed ++ [old]) ++ (s.writers.set i .returned).flatMap Writer.old
            = s.closed ++ ([old] ++ (s.writers.set i .returned).flatMap Writer.old) :=
              List.append_assoc _ _ _
          _ ~ s.closed ++ ((s.writers.set i .returned).flatMap Writer.old ++ [old]) :=
              List.Perm.append_left _ List.perm_append_comm
          _ ~ s.closed ++ s.writers.flatMap Writer.old := List.Perm.append_left _ hp
          _ ~ List.range s.chan := h.channels
      · exact mem_set_of_ne hi hs (by simp)
    · exact h
  | join =>
    refine ⟨h.channels, fun r hr => ?_⟩
    rcases List.mem_append.1 hr with hr | hr
    · exact h.readers r hr
    · rw [List.mem_singleton.1 hr]
      trivial
  | fetch j =>
    unfold Signal.step
    dsimp only
    split
    · exact ⟨h.channels, forall_set h.readers (le_refl s.chan)⟩
    · exact h
  | read j =>
    unfold Signal.step
    dsimp only
    split
    · rename_i c hj
      have hc : c ≤ s.chan := h.readers _ (List.mem_of_getElem? hj)
      exact ⟨h.channels, forall_set h.readers ⟨hc, fun _ => Or.inl rfl⟩⟩
    · exact h
  | leave j => exact ⟨h.channels, forall_set h.readers trivial⟩

/-- The state before any party has joined. -/
def init (v : α) : State α := ⟨v, 0, [], [], []⟩

theorem inv_init (v : α) : Inv (init v) := ⟨List.Perm.refl _, fun _ hr => by cases hr⟩

theorem inv_run (v : α) (es : List (Event α)) : Inv (run step (init v) es) :=
  Along.inv (C := fun _ _ => True) (fun _ e h _ => h.step e)
    (Along.of_forall fun _ _ _ => trivial) (inv_init v)

/-- **No channel is closed twice.** -/
theorem Inv.nodup_closed (h : Inv s) : s.closed.Nodup :=
  (List.nodup_append.1 ((h.channels.nodup_iff).2 List.nodup_range)).1

/-- **No change is missed.** When every writer has returned, a reader that waits on an
open channel has read the current value. -/
theorem Inv.value_of_open (h : Inv s) (hw : ∀ w ∈ s.writers, w = .returned) {c : ℕ} {v : α}
    (hr : .read c v ∈ s.readers) (hc : c ∉ s.closed) : v = s.value := by
  have hold : s.writers.flatMap Writer.old = [] := by
    rw [List.flatMap_eq_nil_iff]
    intro w hmem
    rw [hw w hmem]
    rfl
  have hall := h.channels
  rw [hold, List.append_nil] at hall
  obtain ⟨hle, hcur⟩ := h.readers _ hr
  have hnlt : ¬ c < s.chan := fun hlt => hc (hall.mem_iff.2 (List.mem_range.2 hlt))
  rcases hcur (by omega) with hv | hs
  · exact hv
  · cases hw _ hs

end Lib.Signal
