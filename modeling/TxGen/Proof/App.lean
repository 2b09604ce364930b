import TxGen.Proof.Steps
import TxGen.Spec.App

/-!
# What a step of a starting process does

The steps of `initialUTXOs`, inverted once (`app_effect`), and what holds where it
stands (`BootOK`): the file is not used by anyone else, and once the check has passed its
hash is that of the configured lock script.
-/

namespace TxGen

open Lib

variable {Hash : Type} {sdk : SDK Hash} {scriptHash : Bytes → Bytes}

/-- What an event leads to. -/
inductive AppEffect (sdk : SDK Hash) (scriptHash : Bytes → Bytes) (a : App Hash) :
    AppEvent Hash → App Hash → Prop
  /-- the event is not enabled -/
  | idle (e : AppEvent Hash) : AppEffect sdk scriptHash a e a
  | start (o : Options Hash) (hb : a.boot = none) (hp : a.world.proc = none) :
      AppEffect sdk scriptHash a (.start o) { a with boot := some ⟨o, .load⟩, error := none }
  /-- `initialUTXOs` returns an error -/
  | fail (e : AppEvent Hash) (err : StartError) (b : Boot Hash) (hb : a.boot = some b) :
      AppEffect sdk scriptHash a e (a.fail err)
  /-- a file without a hash, and without UTXOs -/
  | unset (o : Options Hash) (ok : Bool) (hb : a.boot = some ⟨o, .load⟩)
      (hh : a.lockScriptHash = []) (hall : a.world.store.loadAll = []) :
      AppEffect sdk scriptHash a (.boot ok) (a.goto o .writeHash)
  /-- a file of the configured lock script -/
  | same (o : Options Hash) (ok : Bool) (hb : a.boot = some ⟨o, .load⟩)
      (hne : a.lockScriptHash ≠ []) (hh : a.lockScriptHash = scriptHash o.mode.lockScript) :
      AppEffect sdk scriptHash a (.boot ok) (a.goto o (.writeMode a.world.store.loadAll))
  | writeHash (o : Options Hash) (hb : a.boot = some ⟨o, .writeHash⟩) :
      AppEffect sdk scriptHash a (.boot true)
        ({ a with lockScriptHash := scriptHash o.mode.lockScript }.goto o (.writeMode []))
  | writeMode (o : Options Hash) (utxos : List UTXO) (hb : a.boot = some ⟨o, .writeMode utxos⟩) :
      AppEffect sdk scriptHash a (.boot true)
        ({ a with txMode := some o.mode.name }.goto o (if utxos = [] then .fetch else .new utxos))
  | fetched (o : Options Hash) (utxos : List UTXO) (hb : a.boot = some ⟨o, .fetch⟩) :
      AppEffect sdk scriptHash a (.fetched (some utxos)) (a.goto o (.new utxos))
  | new (o : Options Hash) (ok : Bool) (initial : List UTXO) (hb : a.boot = some ⟨o, .new initial⟩) :
      AppEffect sdk scriptHash a (.boot ok)
        { a with boot := none, world := a.world.step sdk (.start o initial) }
  | crash : AppEffect sdk scriptHash a .crash
      { a with boot := none, world := a.world.step sdk .crash }
  | world (e : Event Hash) (he : ∀ o initial, e ≠ .start o initial) :
      AppEffect sdk scriptHash a (.world e) { a with world := a.world.step sdk e }

/-- **Inversion of an event.** -/
theorem app_effect (sdk : SDK Hash) (scriptHash : Bytes → Bytes) (a : App Hash)
    (e : AppEvent Hash) : AppEffect sdk scriptHash a e (a.step sdk scriptHash e) := by
  cases e with
  | start o =>
    simp only [App.step]
    split
    · rename_i hb hp
      exact .start o hb hp
    · exact .idle _
  | boot ok =>
    simp only [App.step]
    split
    · exact .idle _
    · rename_i b hb
      obtain ⟨o, pc⟩ := b
      unfold App.bootStep
      cases pc with
      | load =>
        simp only [App.check]
        split_ifs with hmis hleg hunset
        · exact .fail _ _ _ hb
        · exact .fail _ _ _ hb
        · refine .unset o ok hb hunset ?_
          by_contra hne
          exact hleg ⟨hunset, hne⟩
        · refine .same o ok hb hunset ?_
          by_contra hne
          exact hmis ⟨hunset, hne⟩
      | writeHash =>
        cases ok with
        | true => exact .writeHash o hb
        | false => exact .fail _ _ _ hb
      | writeMode utxos =>
        cases ok with
        | true => exact .writeMode o utxos hb
        | false => exact .fail _ _ _ hb
      | fetch => exact .idle _
      | new initial => exact .new o ok initial hb
  | fetched answer =>
    simp only [App.step]
    split
    · rename_i o hb
      split
      · exact .fail _ _ _ hb
      · rename_i utxos
        exact .fetched o utxos hb
    · exact .idle _
  | crash => exact .crash
  | world e =>
    cases e with
    | start => exact .idle _
    | crash | cancel | configure | poll | main | task => exact .world _ (by simp)

/-- What holds where `initialUTXOs` stands. -/
structure BootOK (scriptHash : Bytes → Bytes) (a : App Hash) (b : Boot Hash) : Prop where
  proc : a.world.proc = none
  pc : match b.pc with
    | .load => True
    | .writeHash => a.lockScriptHash = [] ∧ a.world.store.loadAll = []
    | .writeMode utxos =>
      a.lockScriptHash = scriptHash b.options.mode.lockScript ∧ utxos = a.world.store.loadAll
    | .fetch =>
      a.lockScriptHash = scriptHash b.options.mode.lockScript ∧ a.world.store.loadAll = []
    | .new initial => a.lockScriptHash = scriptHash b.options.mode.lockScript ∧
      (initial = a.world.store.loadAll ∨ a.world.store.loadAll = [])

/-- So of the process that starts, if there is one. -/
def App.OK (scriptHash : Bytes → Bytes) (a : App Hash) : Prop :=
  ∀ b, a.boot = some b → BootOK scriptHash a b

theorem App.OK.step {a : App Hash} (h : a.OK scriptHash) (e : AppEvent Hash) :
    (a.step sdk scriptHash e).OK scriptHash := by
  have heff := app_effect sdk scriptHash a e
  generalize a.step sdk scriptHash e = a' at heff ⊢
  intro b hb
  cases heff with
  | idle => exact h b hb
  | start o hb₀ hp =>
    cases hb
    exact ⟨hp, trivial⟩
  | fail | crash | new => cases hb
  | unset o ok hb₀ hh hall =>
    cases hb
    exact ⟨(h _ hb₀).proc, hh, hall⟩
  | same o ok hb₀ hne hh =>
    cases hb
    exact ⟨(h _ hb₀).proc, hh, rfl⟩
  | writeHash o hb₀ =>
    cases hb
    exact ⟨(h _ hb₀).proc, rfl, ((h _ hb₀).pc.2).symm⟩
  | writeMode o utxos hb₀ =>
    cases hb
    obtain ⟨hp, hh, hall⟩ := h _ hb₀
    refine ⟨hp, ?_⟩
    dsimp only
    by_cases hnil : utxos = []
    · rw [if_pos hnil]
      exact ⟨hh, hall.symm.trans hnil⟩
    · rw [if_neg hnil]
      exact ⟨hh, Or.inl hall⟩
  | fetched o utxos hb₀ =>
    cases hb
    obtain ⟨hp, hh, hall⟩ := h _ hb₀
    exact ⟨hp, hh, Or.inr hall⟩
  | world e he =>
    -- without a process the world does not move
    have hold := h b hb
    have hsame : a.world.step sdk e = a.world := step_none hold.proc he
    refine ⟨?_, ?_⟩
    · show (a.world.step sdk e).proc = none
      rw [hsame]
      exact hold.proc
    · dsimp only
      rw [hsame]
      exact hold.pc

theorem App.OK.init : (App.init : App Hash).OK scriptHash := fun b hb => (by cases hb)

end TxGen
