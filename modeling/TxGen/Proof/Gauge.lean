import TxGen.Lib.Mirror
import TxGen.Lib.Slots
import TxGen.Proof.Params
import TxGen.Spec.Gauge

/-!
# When the gauge shows the active chains

The counter is the number of chains that run (`Gauge.Counted`). Counter and gauge are a
value and its copy in the sense of `TxGen.Lib.Mirror`: every update is followed by a
write, but the writes of two chains may come in the other order. So in a quiet state
the gauge is the counter exactly when the last write was current: no update came between
the one whose value it wrote and the write itself, or they cancelled out
(`gauge_eq_iff`). Two chains that end at the same time can leave a gauge of one with no
chain left (`gauge_drifts`).

The chains of the engine's runs are chains of this machine (`exists_gauge_run`).
-/

namespace TxGen

open Lib
open scoped List

namespace Gauge

variable {g : Gauge}

/-- What the event writes to the gauge, if anything. -/
def written (g : Gauge) : GaugeEvent → Option ℤ
  | .start => g.starting
  | .report i =>
    match g.chains[i]? with
    | some (.leaving n) => some n
    | _ => none
  | .add | .leave _ => none

/-- What the event writes to the gauge, if anything, is what the counter is: no other
update came after the one whose value it writes. -/
def Current (g : Gauge) (e : GaugeEvent) : Prop := ∀ n ∈ g.written e, n = g.chainsActive

instance (g : Gauge) (e : GaugeEvent) : Decidable (g.Current e) :=
  inferInstanceAs (Decidable (∀ n ∈ g.written e, n = g.chainsActive))

/-- The counter counts the running chains. -/
def Counted (g : Gauge) : Prop := g.chainsActive = g.running

theorem not_quiet_of_starting {n : ℤ} (h : g.starting = some n) : g.quiet ≠ true := by
  rw [quiet, h]
  simp

theorem not_quiet_of_leaving {n : ℤ} (h : .leaving n ∈ g.chains) : g.quiet ≠ true := by
  intro hquiet
  rw [quiet, Bool.and_eq_true, List.all_eq_true] at hquiet
  simpa using hquiet.2 _ h

/-- **The gauge is a copy of the counter.** -/
theorem mirrors : Mirrors step (fun _ => True) (fun g => g.quiet = true) chainsActive gauge written where
  write g e n _ hn := by
    cases e with
    | add | leave => cases hn
    | start =>
      have hs : g.starting = some n := hn
      rw [step, hs]
      exact ⟨rfl, rfl⟩
    | report i =>
      rw [written] at hn
      split at hn
      · rename_i m hi
        cases hn
        rw [step, hi]
        exact ⟨rfl, rfl⟩
      · cases hn
  stay g e _ hn hquiet := by
    cases e with
    | add =>
      cases hs : g.starting with
      | some n =>
        rw [step, hs] at hquiet ⊢
        exact ⟨hquiet, rfl, rfl⟩
      | none =>
        -- `runChains` now holds the value its update returned
        rw [step, hs] at hquiet
        exact absurd hquiet (not_quiet_of_starting rfl)
    | start =>
      have hs : g.starting = none := hn
      rw [step, hs] at hquiet ⊢
      exact ⟨hquiet, rfl, rfl⟩
    | leave i =>
      rw [step] at hquiet ⊢
      split at hquiet
      · rename_i hi
        -- the chain that leaves holds the value until it reports
        exact absurd hquiet (not_quiet_of_leaving (mem_set_self hi))
      · exact ⟨hquiet, rfl, rfl⟩
    | report i =>
      rw [step] at hquiet ⊢
      split at hquiet
      · rename_i n hi
        rw [written, hi] at hn
        cases hn
      · exact ⟨hquiet, rfl, rfl⟩

theorem Counted.step (h : g.Counted) (e : GaugeEvent) : (g.step e).Counted := by
  unfold Counted running at h ⊢
  cases e with
  | add =>
    rw [Gauge.step]
    cases hs : g.starting with
    | some n => exact h
    | none =>
      rw [hs] at h
      simp only [Option.toList_none, Option.toList_some, List.length_nil, List.length_singleton] at h ⊢
      omega
  | start =>
    rw [Gauge.step]
    cases hs : g.starting with
    | none => exact h
    | some n =>
      rw [hs] at h
      simp only [Option.toList_none, Option.toList_some, List.length_nil, List.length_singleton,
        List.count_append, List.count_singleton_self] at h ⊢
      omega
  | leave i =>
    rw [Gauge.step]
    split
    · rename_i hi
      obtain ⟨hlt, hget⟩ := List.getElem?_eq_some_iff.1 hi
      have hpos : 0 < g.chains.count .running :=
        List.count_pos_iff.2 (List.mem_of_getElem? hi)
      have hset := List.count_set (l := g.chains) (a := .leaving (g.chainsActive - 1))
        (b := ChainPc.running) hlt
      simp only [hget, beq_self_eq_true, if_true, reduceCtorEq, beq_iff_eq, if_false] at hset
      simp only
      omega
    · exact h
  | report i =>
    rw [Gauge.step]
    split
    · rename_i n hi
      obtain ⟨hlt, hget⟩ := List.getElem?_eq_some_iff.1 hi
      have hset := List.count_set (l := g.chains) (a := ChainPc.ended) (b := ChainPc.running) hlt
      simp only [hget, reduceCtorEq, beq_iff_eq, if_false] at hset
      simp only
      omega
    · exact h

theorem counted_run (es : List GaugeEvent) : (init.run es).Counted :=
  Along.inv (C := fun _ _ => True) (I := Counted) (fun _ e h _ => h.step e)
    (Along.of_forall fun _ _ _ => trivial) rfl

end Gauge

/-- **When the gauge shows the active chains.** In every state in which no start or
termination is in progress, the gauge is the counter exactly when the last write to it,
the one that left the machine so, was current, which it is if no update ever comes
between another one and its write. The counter is the number of running chains. -/
theorem gauge_eq_iff (es : List GaugeEvent) (hquiet : (Gauge.init.run es).quiet = true) :
    ((Gauge.init.run es).gauge = (Gauge.init.run es).chainsActive ↔
        ∀ g e, lastCopy Gauge.step Gauge.written Gauge.init es = some (g, e) → g.Current e) ∧
      (Along Gauge.step Gauge.Current Gauge.init es →
        (Gauge.init.run es).gauge = (Gauge.init.run es).chainsActive) ∧
      (Gauge.init.run es).chainsActive = (Gauge.init.run es).running := by
  have hiff := Gauge.mirrors.copy_eq_iff Gauge.init (fun _ => trivial) (fun _ => rfl) es hquiet
  refine ⟨hiff, fun hes => hiff.2 fun g e hlast => ?_, Gauge.counted_run es⟩
  obtain ⟨g', e', hcur, heq⟩ := hes.of_lastOf hlast
  obtain ⟨n, -, hge⟩ := Option.map_eq_some_iff.1 heq
  cases hge
  exact hcur

/-- Two chains are started one after the other and end; their last steps come in the
order `order`. -/
def endTwo (order : List GaugeEvent) : List GaugeEvent :=
  [.add, .start, .add, .start] ++ order

/-- Both chains have counted themselves down, and the first one writes last: the gauge
shows a chain when there is none. -/
theorem gauge_drifts :
    let g := Gauge.init.run (endTwo [.leave 0, .leave 1, .report 1, .report 0])
    g.quiet = true ∧ g.chains = [.ended, .ended] ∧ g.chainsActive = 0 ∧ g.gauge = 1 := by
  decide

/-- One after the other they leave a gauge of zero. -/
theorem gauge_in_order :
    (Gauge.init.run (endTwo [.leave 1, .report 1, .leave 0, .report 0])).gauge =
      (Gauge.init.run (endTwo [.leave 1, .report 1, .leave 0, .report 0])).chainsActive :=
  (gauge_eq_iff _ (by decide)).2.1 (by decide)

/-! ## The chains of the engine -/

variable {Hash : Type} {sdk : SDK Hash}

/-- A task seen as a chain whose deferred function has run if it has ended. -/
def Task.chainPc (t : Task Hash) : ChainPc := if t.ended then .ended else .running

/-- The gauge's chains are the tasks of the process. -/
structure Gauge.Shows (g : Gauge) (q : Proc Hash) : Prop where
  chains : g.chains = q.tasks.map Task.chainPc
  starting : g.starting = none

theorem Gauge.Shows.start {g : Gauge} {q q' : Proc Hash} (h : g.Shows q) {t : Task Hash}
    (ht : t.ended = false) (hq' : q'.tasks = q.tasks ++ [t]) : (g.run [.add, .start]).Shows q' := by
  have hrun : (g.run [.add, .start]).chains = g.chains ++ [.running] ∧
      (g.run [.add, .start]).starting = none := by
    simp [Gauge.run, Gauge.step, h.starting]
  refine ⟨?_, hrun.2⟩
  rw [hrun.1, h.chains, hq', List.map_append, List.map_singleton, Task.chainPc, ht]
  rfl

/-- A chain that goes on changes nothing, and one that ends leaves and reports. -/
theorem Gauge.Shows.set {g : Gauge} {q q' : Proc Hash} (h : g.Shows q) {i : ℕ} {t t' : Task Hash}
    (hi : q.tasks[i]? = some t) (ht : t.ended = false) (hq' : q'.tasks = q.tasks.set i t') :
    ∃ ds, (g.run ds).Shows q' := by
  have hget : g.chains[i]? = some .running := by
    rw [h.chains, List.getElem?_map, hi, Option.map_some, Task.chainPc, ht]
    rfl
  have hmap : q'.tasks.map Task.chainPc = g.chains.set i t'.chainPc := by
    rw [hq', List.map_set, h.chains]
  by_cases hend : t'.ended = true
  · have hlt : i < g.chains.length := (List.getElem?_eq_some_iff.1 hget).1
    have hleft : (g.chains.set i (.leaving (g.chainsActive - 1)))[i]? =
        some (.leaving (g.chainsActive - 1)) := List.getElem?_set_self hlt
    have hrun : (g.run [.leave i, .report i]).chains = g.chains.set i .ended ∧
        (g.run [.leave i, .report i]).starting = g.starting := by
      simp only [Gauge.run, run_cons, run_nil, Gauge.step, hget, hleft, List.set_set, and_self]
    refine ⟨[.leave i, .report i], ?_, hrun.2.trans h.starting⟩
    rw [hrun.1, hmap, Task.chainPc, if_pos hend]
  · refine ⟨[], ?_, h.starting⟩
    rw [hmap, Task.chainPc, if_neg hend, set_of_getElem? hget]
    rfl

/-- **One event while the chains run.** -/
theorem step_shows {w : World Hash} {q : Proc Hash} {g : Gauge} (hq : w.proc = some q)
    (hm : q.main = .chains) (h : g.Shows q) {e : Event Hash} (he : SameLife e) :
    ∃ q' ds, (w.step sdk e).proc = some q' ∧ q'.main = .chains ∧ (g.run ds).Shows q' := by
  by_cases hmain : ∃ ok, e = .main ok
  · obtain ⟨ok, rfl⟩ := hmain
    have hstep : w.step sdk (.main ok) = w.mainStep q ok := by simp only [World.step, hq]
    rw [hstep, World.mainStep, hm]
    cases hpop : Queue.pop q.queue with
    | none => exact ⟨q, [], hq, hm, h⟩
    | some p => exact ⟨_, [.add, .start], rfl, rfl, h.start rfl rfl⟩
  -- no other event starts a chain
  have heff := step_effect sdk w e
  generalize w.step sdk e = w' at heff ⊢
  have hsame : ∀ {q₁ : Proc Hash}, w.proc = some q₁ → q₁ = q := fun hq₁ =>
    Option.some.inj (hq₁.symm.trans hq)
  cases heff with
  | idle => exact ⟨q, [], hq, hm, h⟩
  | start | crash => exact he.elim
  | cancel q₁ hq₁ =>
    obtain rfl := hsame hq₁
    exact ⟨_, [], rfl, hm, h.chains, h.starting⟩
  | configure u q₁ q' hq₁ hst hc =>
    obtain rfl := hsame hq₁
    obtain ⟨-, n, f, m, rfl⟩ := configure_ok hc
    exact ⟨_, [], rfl, hm, h.chains, h.starting⟩
  | poll utxos q₁ hq₁ hm₁ =>
    rw [hsame hq₁, hm] at hm₁
    cases hm₁
  | main ok => exact absurd ⟨ok, rfl⟩ hmain
  | task i e q₁ t t' w' queue hq₁ hi ht =>
    obtain rfl := hsame hq₁
    obtain ⟨ds, hds⟩ : ∃ ds, (g.run ds).Shows { q₁ with queue, tasks := q₁.tasks.set i t' } :=
      h.set hi ht.not_ended rfl
    exact ⟨_, ds, rfl, hm, hds⟩

/-- **The chains of an engine are chains of the gauge**, whatever happens to them as long
as the process lives. -/
theorem exists_gauge_run {w : World Hash} {q : Proc Hash} (hq : w.proc = some q)
    (hm : q.main = .chains) (ht : q.tasks = []) {es : List (Event Hash)}
    (hes : ∀ e ∈ es, SameLife e) :
    ∃ q' ds, (w.run sdk es).proc = some q' ∧ (Gauge.init.run ds).Shows q' := by
  have hinit : Gauge.init.Shows q := ⟨by rw [ht]; rfl, rfl⟩
  have hlife : Along (World.step sdk) (fun _ e => SameLife e) w es :=
    Along.of_forall fun e he _ => hes e he
  have hrun := Along.inv
    (I := fun w => ∃ q' ds, w.proc = some q' ∧ q'.main = .chains ∧ (Gauge.init.run ds).Shows q')
    (fun w₁ e hw₁ he => ?_) hlife ⟨q, [], hq, hm, hinit⟩
  · obtain ⟨q', ds, hq', -, hs⟩ := hrun
    exact ⟨q', ds, hq', hs⟩
  · obtain ⟨q₁, ds, hq₁, hm₁, hs₁⟩ := hw₁
    obtain ⟨q', ds', hq', hm', hs'⟩ := step_shows hq₁ hm₁ hs₁ he
    refine ⟨q', ds ++ ds', hq', hm', ?_⟩
    rw [Gauge.run, run_append]
    exact hs'

end TxGen
