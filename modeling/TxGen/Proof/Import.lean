import TxGen.Proof.App
import TxGen.Proof.Concrete
import TxGen.Proof.Frozen
import TxGen.Proof.Stages

/-!
# Imports from the UTXO source

`initialUTXOs` asks the UTXO source when the state file holds no UTXO, which is so for a
fresh file and again once every chain is exhausted. As long as the source has no answer
when a transaction has been committed, every import is into a file whose bootstrap stage
is unset or `none`, and from the first commit on the file only gains outputs of committed
transactions (`source_imports_fresh`).
-/

namespace TxGen

open Lib
open scoped List

variable {Hash : Type} {sdk : SDK Hash}

/-! ## What a step does to the stored UTXOs -/

/-- An event leaves the stored UTXOs as they are, imports one, or commits a transaction. -/
theorem step_utxos (sdk : SDK Hash) (w : World Hash) (e : Event Hash) :
    ((w.step sdk e).store.loadAll = w.store.loadAll ∧ (w.step sdk e).imported = w.imported ∧
      (w.step sdk e).committed = w.committed) ∨
    (∃ q u rest, w.proc = some q ∧ (q.main = .persist (u :: rest) ∨ q.main = .pushSeed (u :: rest)) ∧
      (w.step sdk e).store = (w.importUTXO u).store ∧
      (w.step sdk e).imported = (w.importUTXO u).imported ∧
      (w.step sdk e).committed = w.committed) ∨
    ∃ p, (w.step sdk e).store = (w.commit p).store ∧ (w.step sdk e).imported = w.imported ∧
      (w.step sdk e).committed = w.committed ++ [p] := by
  have heff := step_effect sdk w e
  generalize w.step sdk e = w' at heff ⊢
  cases heff with
  | idle | start | crash | cancel | configure | poll => exact Or.inl ⟨rfl, rfl, rfl⟩
  | main ok q w₁ hq hm =>
    rcases hm.history with hh | ⟨u, rest, q', hmain, rfl⟩ | ⟨p, rest, c, n, q', hmain, -, rfl⟩
    · refine Or.inl ⟨?_, hh.imported, hh.committed⟩
      rcases hh.store with hs | ⟨st, hs⟩
      · rw [hs]
      · rw [hs]
        rfl
    · exact Or.inr (Or.inl ⟨q, u, rest, hq, hmain, rfl, rfl, rfl⟩)
    · exact Or.inr (Or.inr ⟨p, rfl, rfl, rfl⟩)
  | task i te q t t' w₁ queue hq hi ht =>
    cases ht with
    | commit p => exact Or.inr (Or.inr ⟨p, rfl, rfl, rfl⟩)
    | clear p ok | clearLast p ok => cases ok <;> exact Or.inl ⟨rfl, rfl, rfl⟩
    | save | stop | giveUp | broadcast | commitFail => exact Or.inl ⟨rfl, rfl, rfl⟩

/-! ## The invariant -/

/-- A process over a file that nothing has been imported into: it has nothing to spend,
and waits for the source or is about to import. -/
def Unfunded (q : Proc Hash) : Prop :=
  q.tasks = [] ∧
    match q.main with
    | .persist rest => q.stage = .none ∧ (rest = [] → q.queue = [])
    | .replay rest changed unknown =>
      q.stage = .none ∧ q.queue = [] ∧ rest = [] ∧ changed = false ∧ unknown = 0
    | .ready | .waitForSeed => q.stage = .none ∧ q.queue = []
    | .pushSeed rest => rest ≠ []
    | .failed _ => True
    | _ => False

/-- What the process is about to import is in the file already, or the file is fresh. -/
def Importing (w : World Hash) (q : Proc Hash) : Prop :=
  match q.main with
  | .persist rest =>
    (∀ u ∈ rest, u ∈ w.store.loadAll) ∨ (w.store.stageOr = .none ∧ w.committed = [])
  | .ready => q.stage = .none → w.store.stageOr = .none
  | .waitForSeed => w.store.stageOr = .none
  | .pushSeed _ => w.store.stageOr = .none ∧ w.committed = []
  | _ => True

/-- What holds while the source answers fresh files only: a file without a commit keeps
what is imported, and one without an import is as it was created. -/
structure SourceInv (w : World Hash) : Prop where
  kept : w.committed = [] → w.imported ≠ [] → w.store.loadAll ≠ []
  untouched : w.imported = [] → w.store.loadAll = [] ∧ w.store.loadPending = [] ∧
    w.store.stageOr = .none ∧ w.committed = [] ∧ ∀ q, w.proc = some q → Unfunded q
  proc : ∀ q, w.proc = some q → Importing w q

/-- The source has UTXOs only when no transaction has been committed. -/
def AnswersFresh (w : World Hash) : Event Hash → Prop
  | .start _ initial => w.store.loadAll = [] → initial ≠ [] → w.committed = []
  | .poll us => us ≠ [] → w.committed = []
  | _ => True

/-- The points at which `Importing` asks something of the file. -/
def Main.imports : Main Hash → Bool
  | .persist _ | .ready | .waitForSeed | .pushSeed _ => true
  | _ => false

theorem importing_of_not_imports {w : World Hash} {q : Proc Hash} (h : q.main.imports = false) :
    Importing w q := by
  unfold Importing
  cases hm : q.main <;> rw [hm] at h <;> trivial

namespace SourceInv

variable {w w' : World Hash} {q q' : Proc Hash}

/-- A step that touches neither the file's UTXOs nor the record of them. -/
theorem keep (h : SourceInv w) (hall : w'.store.loadAll = w.store.loadAll)
    (himp : w'.imported = w.imported) (hcom : w'.committed = w.committed)
    (hun : w.imported = [] → w'.store.loadPending = [] ∧ w'.store.stageOr = .none ∧
      ∀ q, w'.proc = some q → Unfunded q)
    (hproc : ∀ q, w'.proc = some q → Importing w' q) : SourceInv w' := by
  refine ⟨by rw [hall, himp, hcom]; exact h.kept, fun hnil => ?_, hproc⟩
  rw [himp] at hnil
  obtain ⟨hall₀, -, -, hcom₀, -⟩ := h.untouched hnil
  obtain ⟨hpend, hst, hq⟩ := hun hnil
  exact ⟨hall.trans hall₀, hpend, hst, hcom.trans hcom₀, hq⟩

/-- An import. -/
theorem importUTXO (h : SourceInv w) (u : UTXO) (q' : Proc Hash)
    (hproc : Importing (w.importUTXO u) q') : SourceInv ((w.importUTXO u).setProc q') := by
  have hu : u ∈ (w.importUTXO u).store.loadAll := Table.mem_insert.2 (Or.inl rfl)
  have hne : (w.importUTXO u).imported ≠ [] := by
    intro hnil
    change (if u ∈ w.store.loadAll then w.imported else w.imported ++ [u]) = [] at hnil
    split_ifs at hnil with hmem
    · rw [(h.untouched hnil).1] at hmem
      cases hmem
    · simp at hnil
  refine ⟨fun _ _ hnil => ?_, fun hnil => absurd hnil hne, fun q hq => ?_⟩
  · have hall : (w.importUTXO u).store.loadAll = [] := hnil
    rw [hall] at hu
    cases hu
  · cases hq
    exact hproc

/-- A commit. -/
theorem commit (hne : w.imported ≠ []) (hcom : w'.committed ≠ [])
    (himp : w'.imported = w.imported) (hproc : ∀ q, w'.proc = some q → Importing w' q) :
    SourceInv w' := by
  refine ⟨fun hnil => absurd hnil hcom, fun hnil => ?_, hproc⟩
  rw [himp] at hnil
  exact absurd hnil hne

/-- Where the process of a file without an import stands. -/
theorem untouched_main (h : SourceInv w) (hq : w.proc = some q) (hnil : w.imported = []) :
    Unfunded q := (h.untouched hnil).2.2.2.2 q hq

/-- A step of the main goroutine. -/
theorem mainEffect (h : SourceInv w) {ok : Bool} (he : MainEffect w q ok w')
    (hq : w.proc = some q) : SourceInv w' := by
  have himp := h.proc q hq
  have hun := fun hnil => h.untouched_main hq hnil
  unfold Importing at himp
  -- from a point that no process of an untouched file reaches, to one without imports
  have hbeyond : ∀ (ok : Bool) (st : Stage) (q' : Proc Hash),
      (w.imported = [] → False) → q'.main.imports = false →
      SourceInv ((w.writeStage ok st).setProc q') := by
    intro ok st q' hno hm'
    have hs : (w.writeStage ok st).store.loadAll = w.store.loadAll := by cases ok <;> rfl
    have hi : (w.writeStage ok st).imported = w.imported := by cases ok <;> rfl
    have hc : (w.writeStage ok st).committed = w.committed := by cases ok <;> rfl
    refine h.keep hs hi hc (fun hnil => (hno hnil).elim) fun q₁ hq₁ => ?_
    cases hq₁
    exact importing_of_not_imports hm'
  have hbeyond' : ∀ q' : Proc Hash, (w.imported = [] → False) → q'.main.imports = false →
      SourceInv (w.setProc q') := fun q' => hbeyond false .none q'
  cases he with
  | wait => exact h
  | persist u rest hm =>
    rw [hm] at himp
    refine h.importUTXO u _ ?_
    rcases himp with hin | hfresh
    -- initial UTXOs that the store holds already are not imported again
    · refine Or.inl fun x hx => ?_
      rw [importUTXO_of_mem (hin u List.mem_cons_self)]
      exact hin x (List.mem_cons_of_mem _ hx)
    · exact Or.inr hfresh
  | persisted ok hm =>
    refine h.keep rfl rfl rfl (fun hnil => ?_) fun q₁ hq₁ => ?_
    · obtain ⟨-, hpend, hst, -, -⟩ := h.untouched hnil
      obtain ⟨ht, hmain⟩ := hun hnil
      rw [hm] at hmain
      refine ⟨hpend, hst, fun q₁ hq₁ => ?_⟩
      cases hq₁
      refine ⟨ht, hmain.1, hmain.2 rfl, ?_, rfl, rfl⟩
      rw [hpend]
      rfl
    · cases hq₁
      trivial
  | newFails =>
    refine h.keep rfl rfl rfl (fun hnil => ?_) fun q₁ hq₁ => (by cases hq₁)
    obtain ⟨-, hpend, hst, -, -⟩ := h.untouched hnil
    exact ⟨hpend, hst, fun q₁ hq₁ => (by cases hq₁)⟩
  | replayUnknown ok p rest changed unknown hm =>
    refine hbeyond' _ (fun hnil => ?_) rfl
    have hmain := (hun hnil).2
    rw [hm] at hmain
    exact absurd hmain.2.2.1 (by simp)
  | replayCommit p rest changed unknown hm =>
    refine SourceInv.commit (w := w) (fun hnil => ?_) (by simp [World.setProc, World.commit]) rfl
      fun q₁ hq₁ => ?_
    · have hmain := (hun hnil).2
      rw [hm] at hmain
      exact absurd hmain.2.2.1 (by simp)
    · cases hq₁
      refine importing_of_not_imports ?_
      dsimp only
      cases p.stage <;> rfl
  | replayStage ok st rest changed unknown hm =>
    refine hbeyond ok st _ (fun hnil => ?_) rfl
    have hmain := (hun hnil).2
    rw [hm] at hmain
    exact hmain
  | restored ok changed hm =>
    refine h.keep rfl rfl rfl (fun hnil => ?_) fun q₁ hq₁ => ?_
    · obtain ⟨-, hpend, hst, -, -⟩ := h.untouched hnil
      obtain ⟨ht, hmain⟩ := hun hnil
      rw [hm] at hmain
      obtain ⟨hstage, hqueue, -, rfl, -⟩ := hmain
      refine ⟨hpend, hst, fun q₁ hq₁ => ?_⟩
      cases hq₁
      refine ⟨ht, ?_, hqueue⟩
      show w.store.stage.getD q.stage = .none
      rw [hstage]
      exact hst
    · cases hq₁
      intro hstage
      change w.store.stage.getD q.stage = .none at hstage
      show w.store.stage.getD .none = .none
      cases hs : w.store.stage with
      | none => rfl
      | some st =>
        rw [hs] at hstage
        exact hstage
  | restoredUnknown ok changed unknown hm hu =>
    have hno : w.imported = [] → False := by
      intro hnil
      have hmain := (hun hnil).2
      rw [hm] at hmain
      exact hu hmain.2.2.2.2
    refine h.keep (by cases ok <;> rfl) (by cases ok <;> rfl) (by cases ok <;> rfl)
      (fun hnil => (hno hnil).elim) fun q₁ hq₁ => ?_
    cases hq₁
    intro hstage
    change (w.writeStage ok .unknown).store.stage.getD .unknown = .none at hstage
    show (w.writeStage ok .unknown).store.stage.getD .none = .none
    cases hs : (w.writeStage ok .unknown).store.stage with
    | none => rfl
    | some st =>
      rw [hs] at hstage
      exact hstage
  | waitForSeed ok hm hst hqueue =>
    rw [hm] at himp
    refine h.keep rfl rfl rfl (fun hnil => ?_) fun q₁ hq₁ => ?_
    · obtain ⟨-, hpend, hst', -, -⟩ := h.untouched hnil
      refine ⟨hpend, hst', fun q₁ hq₁ => ?_⟩
      cases hq₁
      exact ⟨(hun hnil).1, hst, hqueue⟩
    · cases hq₁
      exact himp hst
  | ready ok hm hne =>
    refine hbeyond' _ (fun hnil => ?_) rfl
    have hmain := (hun hnil).2
    rw [hm] at hmain
    exact hne hmain
  | pushSeed u rest hm =>
    rw [hm] at himp
    exact h.importUTXO u _ himp
  | seeded ok hm =>
    refine hbeyond' _ (fun hnil => ?_) rfl
    have hmain := (hun hnil).2
    rw [hm] at hmain
    exact hmain rfl
  | lock ok st hm =>
    refine hbeyond' _ (fun hnil => ?_) ?_
    · have hmain := (hun hnil).2
      rw [hm] at hmain
      exact hmain
    · dsimp only
      rcases dispatch_cases Hash st q.queue.length q.numChains q.l1Count with
        hd | hd | hd | hd | ⟨e, hd⟩ <;> rw [hd] <;> rfl
  | beginL1 ok seed rest hm | endL1 ok t outputs hm | beginL2 ok hm | endL2 ok hm | markDone ok hm =>
    refine hbeyond ok _ _ (fun hnil => ?_) rfl
    have hmain := (hun hnil).2
    rw [hm] at hmain
    exact hmain
  | startChain ok u rest hm =>
    refine hbeyond' _ (fun hnil => ?_) ?_
    · have hmain := (hun hnil).2
      rw [hm] at hmain
      exact hmain
    · dsimp only
      rw [hm]
      rfl
  | fail ok queue e hst =>
    refine h.keep rfl rfl rfl (fun hnil => ?_) fun q₁ hq₁ => ?_
    · obtain ⟨-, hpend, hst', -, -⟩ := h.untouched hnil
      refine ⟨hpend, hst', fun q₁ hq₁ => ?_⟩
      cases hq₁
      exact ⟨rfl, trivial⟩
    · cases hq₁
      trivial
  | failAt ok st queue e hm =>
    refine hbeyond ok st _ (fun hnil => ?_) rfl
    have hmain := (hun hnil).2
    rcases hm with ⟨hm, -⟩ | ⟨hm | hm, -⟩ <;> rw [hm] at hmain <;> exact hmain

/-- **One event.** -/
theorem step (h : SourceInv w) (hl : LockedAt sdk w) {e : Event Hash} (he : AnswersFresh w e) :
    SourceInv (w.step sdk e) := by
  have heff := step_effect sdk w e
  generalize w.step sdk e = w' at heff ⊢
  cases heff with
  | idle => exact h
  | start o initial hw hs =>
    have hfresh : w.store.loadAll = [] → initial ≠ [] → w.store.stageOr = .none ∧ w.committed = [] := by
      intro hall hne
      have hcom := he hall hne
      have hnil : w.imported = [] := by
        by_contra hi
        exact h.kept hcom hi hall
      exact ⟨(h.untouched hnil).2.2.1, hcom⟩
    refine ⟨h.kept, fun hnil => ?_, fun q hq => ?_⟩
    · obtain ⟨hall, hpend, hst, hcom, -⟩ := h.untouched hnil
      refine ⟨hall, hpend, hst, hcom, fun q hq => ?_⟩
      cases hq
      refine ⟨rfl, rfl, fun hrest => ?_⟩
      show Queue.restore (if initial = [] then w.store.loadAll else initial) = []
      by_cases hi : initial = []
      · rw [if_pos hi, hall]
        rfl
      · rw [if_neg hi] at hrest
        exact hrest
    · cases hq
      show (∀ u ∈ (if initial = [] then [] else
        Queue.restore (if initial = [] then w.store.loadAll else initial)), u ∈ w.store.loadAll) ∨ _
      by_cases hi : initial = []
      · rw [if_pos hi]
        exact Or.inl (by simp)
      · rw [if_neg hi, if_neg hi]
        by_cases hall : w.store.loadAll = []
        · exact Or.inr (hfresh hall hi)
        · refine Or.inl fun u hu => ?_
          have heq : initial = w.store.loadAll := by
            simpa [World.startsWith, hi, hall] using hs
          rw [← heq]
          exact (Queue.restore_perm initial).mem_iff.1 hu
  | crash q hq =>
    refine h.keep rfl rfl rfl (fun hnil => ?_) fun q₁ hq₁ => (by cases hq₁)
    obtain ⟨-, hpend, hst, -, -⟩ := h.untouched hnil
    exact ⟨hpend, hst, fun q₁ hq₁ => (by cases hq₁)⟩
  | cancel q hq =>
    refine h.keep rfl rfl rfl (fun hnil => ?_) fun q₁ hq₁ => ?_
    · obtain ⟨-, hpend, hst, -, hun⟩ := h.untouched hnil
      refine ⟨hpend, hst, fun q₁ hq₁ => ?_⟩
      cases hq₁
      exact hun q hq
    · cases hq₁
      exact h.proc q hq
  | configure u q q' hq hst hc =>
    obtain ⟨-, n, f, m, rfl⟩ := configure_ok hc
    refine h.keep rfl rfl rfl (fun hnil => ?_) fun q₁ hq₁ => ?_
    · obtain ⟨-, hpend, hst, -, hun⟩ := h.untouched hnil
      refine ⟨hpend, hst, fun q₁ hq₁ => ?_⟩
      cases hq₁
      exact hun q hq
    · cases hq₁
      exact h.proc q hq
  | poll us q hq hm hne =>
    have himp := h.proc q hq
    unfold Importing at himp
    rw [hm] at himp
    refine h.keep rfl rfl rfl (fun hnil => ?_) fun q₁ hq₁ => ?_
    · obtain ⟨-, hpend, hst, -, hun⟩ := h.untouched hnil
      refine ⟨hpend, hst, fun q₁ hq₁ => ?_⟩
      cases hq₁
      exact ⟨(hun q hq).1, hne⟩
    · cases hq₁
      exact ⟨himp, he hne⟩
  | main ok q w₁ hq hm => exact h.mainEffect hm hq
  | task i te q t t' w₁ queue hq hi ht =>
    have htm := List.mem_of_getElem? hi
    have hne : w.imported ≠ [] := by
      intro hnil
      have htasks := (h.untouched_main hq hnil).1
      rw [htasks] at htm
      cases htm
    -- a goroutine runs only after the parameters are fixed, so nothing is being imported
    have hlocked : q.main.imports = false := by
      by_contra hc
      have hu : q.main.unlocked = true := by
        cases hmain : q.main <;> rw [hmain] at hc <;> simp [Main.imports, Main.unlocked] at hc ⊢
      have htasks := ((hl.proc q hq).idle ((hl.proc q hq).before hu)).1
      rw [htasks] at htm
      cases htm
    have hproc : ∀ q₁, (w₁.setProc { q with queue, tasks := q.tasks.set i t' }).proc = some q₁ →
        Importing (w₁.setProc { q with queue, tasks := q.tasks.set i t' }) q₁ := by
      intro q₁ hq₁
      cases hq₁
      exact importing_of_not_imports hlocked
    cases ht with
    | commit p => exact SourceInv.commit hne (by simp [World.setProc, World.commit]) rfl hproc
    | clear p ok | clearLast p ok =>
      cases ok <;> exact h.keep rfl rfl rfl (fun hnil => absurd hnil hne) hproc
    | save | stop | giveUp | broadcast | commitFail =>
      exact h.keep rfl rfl rfl (fun hnil => absurd hnil hne) hproc

theorem init : SourceInv (World.init (Store.empty : Store Hash)) :=
  ⟨fun _ hne => absurd rfl hne, fun _ => ⟨rfl, rfl, rfl, rfl, fun q hq => (by cases hq)⟩,
    fun q hq => (by cases hq)⟩

/-- **An import is into a fresh file.** -/
theorem fresh_of_import (h : SourceInv w) {e : Event Hash}
    (hi : (w.step sdk e).imported ≠ w.imported) :
    w.store.stageOr = .none ∧ w.committed = [] := by
  rcases step_utxos sdk w e with ⟨-, himp, -⟩ | ⟨q, u, rest, hq, hm, -, himp, -⟩ | ⟨p, -, himp, -⟩
  · exact absurd himp hi
  · have hnew : u ∉ w.store.loadAll := by
      intro hu
      rw [importUTXO_of_mem hu] at himp
      exact hi himp
    have hproc := h.proc q hq
    unfold Importing at hproc
    rcases hm with hm | hm <;> rw [hm] at hproc
    · exact hproc.resolve_left fun hin => hnew (hin u List.mem_cons_self)
    · exact hproc
  · exact absurd himp hi

end SourceInv

/-! ## Starts over one state file -/

namespace App

variable {scriptHash : Bytes → Bytes} {a : App Hash}

/-- The source has UTXOs only when no transaction has been committed, whether it is asked
by `initialUTXOs` or by the engine that waits for its funding. -/
def AnswersFresh (a : App Hash) : AppEvent Hash → Prop
  | .fetched (some us) => us ≠ [] → a.world.committed = []
  | .world (.poll us) => us ≠ [] → a.world.committed = []
  | _ => True

/-- A step that imports a UTXO finds the bootstrap stage unset or `none`, and no
transaction committed. -/
def ImportsFresh (sdk : SDK Hash) (scriptHash : Bytes → Bytes) (a : App Hash) (e : AppEvent Hash) :
    Prop :=
  (a.step sdk scriptHash e).world.imported ≠ a.world.imported →
    (a.world.store.stage = none ∨ a.world.store.stage = some .none) ∧ a.world.committed = []

/-- What holds in every state of such a run. -/
structure SourceOK (sdk : SDK Hash) (scriptHash : Bytes → Bytes) (a : App Hash) : Prop where
  boot : a.OK scriptHash
  locked : LockedAt sdk a.world
  source : SourceInv a.world
  fetched : ∀ o initial, a.boot = some ⟨o, .new initial⟩ → a.world.store.loadAll = [] →
    initial ≠ [] → a.world.committed = []

/-- A step is, for the world, none or one whose answers are fresh. -/
theorem SourceOK.world_cases (h : a.SourceOK sdk scriptHash) {e : AppEvent Hash}
    (he : a.AnswersFresh e) : (a.step sdk scriptHash e).world = a.world ∨
      ∃ d, (a.step sdk scriptHash e).world = a.world.step sdk d ∧ TxGen.AnswersFresh a.world d := by
  have heff := app_effect sdk scriptHash a e
  generalize a.step sdk scriptHash e = a' at heff ⊢
  cases heff with
  | idle | start | fail | unset | same | writeHash | writeMode | fetched => exact Or.inl rfl
  | new o ok initial hb => exact Or.inr ⟨_, rfl, h.fetched o initial hb⟩
  | crash => exact Or.inr ⟨_, rfl, trivial⟩
  | world d hd =>
    refine Or.inr ⟨d, rfl, ?_⟩
    cases d with
    | start o initial => exact absurd rfl (hd o initial)
    | poll us => exact he
    | _ => trivial

theorem SourceOK.step (h : a.SourceOK sdk scriptHash) {e : AppEvent Hash} (he : a.AnswersFresh e) :
    (a.step sdk scriptHash e).SourceOK sdk scriptHash := by
  refine ⟨h.boot.step e, ?_, ?_, ?_⟩
  · rcases h.world_cases he with hw | ⟨d, hw, -⟩ <;> rw [hw]
    · exact h.locked
    · exact h.locked.step d
  · rcases h.world_cases he with hw | ⟨d, hw, hd⟩ <;> rw [hw]
    · exact h.source
    · exact h.source.step h.locked hd
  · have heff := app_effect sdk scriptHash a e
    generalize a.step sdk scriptHash e = a' at heff ⊢
    intro o initial hb hall hne
    cases heff with
    | idle => exact h.fetched o initial hb hall hne
    | start | fail | unset | same | writeHash | crash | new => cases hb
    | writeMode o' utxos hb' =>
      -- what is persisted is not asked for
      by_cases hnil : utxos = []
      · simp [App.goto, hnil] at hb
      · have hall' : a.world.store.loadAll = [] := hall
        have hutxos := (h.boot _ hb').pc.2
        rw [hall'] at hutxos
        exact absurd hutxos hnil
    | fetched o' utxos hb' =>
      simp only [App.goto, Option.some.injEq, Boot.mk.injEq, BootPc.new.injEq] at hb
      exact he (by rw [hb.2]; exact hne)
    | world d hd =>
      have hproc := (h.boot _ hb).proc
      have hsame : a.world.step sdk d = a.world := step_none hproc hd
      show (a.world.step sdk d).committed = []
      rw [hsame]
      refine h.fetched o initial hb ?_ hne
      rw [← hsame]
      exact hall

theorem SourceOK.init : (App.init : App Hash).SourceOK sdk scriptHash where
  boot := App.OK.init
  locked := lockedAt_run sdk Store.empty []
  source := SourceInv.init
  fetched o initial hb := (by cases hb)

theorem stage_of_stageOr {s : Store Hash} (h : s.stageOr = .none) :
    s.stage = none ∨ s.stage = some .none := by
  unfold Store.stageOr at h
  cases hs : s.stage with
  | none => exact Or.inl rfl
  | some st =>
    rw [hs] at h
    exact Or.inr (congrArg some h)

theorem SourceOK.importsFresh (h : a.SourceOK sdk scriptHash) {e : AppEvent Hash}
    (he : a.AnswersFresh e) : a.ImportsFresh sdk scriptHash e := by
  intro hi
  rcases h.world_cases he with hw | ⟨d, hw, -⟩
  · rw [hw] at hi
    exact absurd rfl hi
  · rw [hw] at hi
    obtain ⟨hst, hcom⟩ := h.source.fresh_of_import hi
    exact ⟨stage_of_stageOr hst, hcom⟩

/-- Every UTXO of `a'` that is not in `a` is an output of a committed transaction. -/
def GainsCommitted (a a' : App Hash) : Prop :=
  ∀ u ∈ a'.world.store.loadAll, u ∈ a.world.store.loadAll ∨ ∃ p ∈ a'.world.committed, u ∈ p.created

/-- After a commit a step imports nothing. -/
theorem SourceOK.gains {a' : App Hash} (h : a'.SourceOK sdk scriptHash) {e : AppEvent Hash}
    (he : a'.AnswersFresh e) (hcom : a'.world.committed ≠ []) (hg : GainsCommitted a a') :
    GainsCommitted a (a'.step sdk scriptHash e) ∧
      (a'.step sdk scriptHash e).world.committed ≠ [] := by
  have hfresh := h.importsFresh he
  unfold ImportsFresh at hfresh
  unfold GainsCommitted
  rcases h.world_cases he with hw | ⟨d, hw, -⟩
  · rw [hw]
    exact ⟨hg, hcom⟩
  rw [hw] at hfresh ⊢
  rcases step_utxos sdk a'.world d with ⟨hall, -, hc⟩ | ⟨q, u, rest, -, -, hs, hi, hc⟩ | ⟨p, hs, -, hc⟩
  · rw [hall, hc]
    exact ⟨hg, hcom⟩
  · -- an import of a stored UTXO
    have hu : u ∈ a'.world.store.loadAll := by
      by_contra hu
      refine hcom (hfresh ?_).2
      rw [hi]
      show (if u ∈ a'.world.store.loadAll then a'.world.imported else _) ≠ _
      rw [if_neg hu]
      simp
    rw [importUTXO_of_mem hu] at hs
    rw [hs, hc]
    exact ⟨hg, hcom⟩
  · rw [hs, hc]
    refine ⟨fun u hu => ?_, by simp⟩
    rcases Store.mem_commitPending hu with ⟨hu, -⟩ | hu
    · exact Or.inr ⟨p, List.mem_append_right _ (List.mem_singleton_self p), hu⟩
    · rcases hg u hu with hu | ⟨r, hr, hu⟩
      · exact Or.inl hu
      · exact Or.inr ⟨r, List.mem_append_left _ hr, hu⟩

end App

/-- **Imports are into fresh files.** In every run over a new state file in which the
UTXO source has UTXOs only when no transaction has been committed:

* every import finds the bootstrap stage unset or `none`;
* from any state with a committed transaction on, the file gains outputs of committed
  transactions only. -/
theorem source_imports_fresh (sdk : SDK Hash) (scriptHash : Bytes → Bytes)
    {es : List (AppEvent Hash)}
    (hes : Along (App.step sdk scriptHash) App.AnswersFresh App.init es) :
    Along (App.step sdk scriptHash) (App.ImportsFresh sdk scriptHash) App.init es ∧
      ∀ fs gs, es = fs ++ gs → (App.init.steps sdk scriptHash fs).world.committed ≠ [] →
        App.GainsCommitted (App.init.steps sdk scriptHash fs) (App.init.steps sdk scriptHash es) := by
  refine ⟨hes.of_inv (I := App.SourceOK sdk scriptHash) (fun _ _ h he => h.step he)
    (fun _ _ h he => h.importsFresh he) App.SourceOK.init, ?_⟩
  rintro fs gs rfl hcom
  obtain ⟨hfs, hgs⟩ := Along.append.1 hes
  have hmid := hfs.inv (I := App.SourceOK sdk scriptHash) (fun _ _ h he => h.step he)
    App.SourceOK.init
  have hend := hgs.inv (I := fun a' => App.SourceOK sdk scriptHash a' ∧
      a'.world.committed ≠ [] ∧ App.GainsCommitted (App.init.steps sdk scriptHash fs) a')
    (fun a' e h he => ⟨h.1.step he, (h.1.gains he h.2.1 h.2.2).2, (h.1.gains he h.2.1 h.2.2).1⟩)
    ⟨hmid, hcom, fun u hu => Or.inl hu⟩
  unfold App.steps
  rw [run_append]
  exact hend.2.2

instance [DecidableEq Hash] (a : App Hash) : ∀ e, Decidable (a.AnswersFresh e)
  | .fetched (some us) => inferInstanceAs (Decidable (us ≠ [] → a.world.committed = []))
  | .world (.poll us) => inferInstanceAs (Decidable (us ≠ [] → a.world.committed = []))
  | .start _ | .boot _ | .crash | .fetched none | .world .crash | .world .cancel
  | .world (.start _ _) | .world (.configure _) | .world (.main _) | .world (.task _ _) =>
    isTrue trivial

namespace Concrete

/-- `initialUTXOs` takes `n` steps, and the source answers `us`, which go to the engine. -/
def boots (fee : ℕ) (n : ℕ) (us : List UTXO) : List (AppEvent Bytes) :=
  .start (options fee 1 1) :: List.replicate n (.boot true) ++ [.fetched (some us), .boot true]

/-- A new file is funded and bootstrapped for one chain. -/
def bootstrapped : List (AppEvent Bytes) :=
  boots 20 3 [funding 0 30] ++
    (mains 6 ++ succeed 0 ++ mains 2 ++ succeed 0 ++ mains 2).map .world

/-- Its chain has one hop. The process crashes, and at the next start the source has
another UTXO. -/
def exhaustedAndRestarted : List (AppEvent Bytes) :=
  bootstrapped ++ (succeed 0).map .world ++ .crash :: boots 20 2 [funding 1 100]

end Concrete

/-- A file whose chain is exhausted: the stage is `l2Done`, three transactions are
committed, and the answer of the source is imported. -/
theorem exhausted_file_imports :
    let a := App.init.steps Concrete.plainSDK id Concrete.exhaustedAndRestarted
    a.world.store.stage = some .l2Done ∧ a.world.committed.length = 3 ∧
      a.world.imported = [Concrete.funding 0 30] ∧
      (a.step Concrete.plainSDK id (.world (.main true))).world.imported =
        [Concrete.funding 0 30, Concrete.funding 1 100] ∧
      (a.step Concrete.plainSDK id (.world (.main true))).world.store.loadAll =
        [Concrete.funding 1 100] := by
  decide +kernel

theorem bootstrapped_imports_fresh :
    (App.init.steps Concrete.plainSDK id Concrete.bootstrapped).world.committed ≠ [] ∧
      App.GainsCommitted (App.init.steps Concrete.plainSDK id Concrete.bootstrapped)
        (App.init.steps Concrete.plainSDK id
          (Concrete.bootstrapped ++ (Concrete.succeed 0).map .world)) := by
  have hcom : (App.init.steps Concrete.plainSDK id Concrete.bootstrapped).world.committed ≠ [] := by
    decide +kernel
  exact ⟨hcom, (source_imports_fresh Concrete.plainSDK id (by decide +kernel)).2
    Concrete.bootstrapped _ rfl hcom⟩

end TxGen
