import TxGen.Lib.Bucket
import Mathlib.Logic.Function.Basic

/-!
# Partial maps in a bucket

A bucket represents a partial map `m : A → Option V` when the value of `m` at `a` is
stored, encoded, under the key of `a`, and nothing else is stored. With keys that are
different for different arguments, storing and removing are updates of the map
(`Represents.put`, `Represents.delete`), and a bucket whose records tell their argument
lists each of them once (`Represents.exists_values`).
-/

namespace Lib

/-- Decoding a list of encoded values. -/
theorem mapM_encoded {V W : Type*} {enc : V → W} {dec : W → Option V}
    (h : ∀ v, dec (enc v) = some v) (l : List V) : (l.map enc).mapM dec = some l := by
  induction l with
  | nil => rfl
  | cons v l ih => simp [h, ih]

namespace Bucket

variable {K A V W : Type*} [LinearOrder K] {key : A → K} {enc : V → W} {dec : W → Option V}
  {b : Bucket K W} {m : A → Option V}

/-- The bucket holds the encoded values of `m` under the keys of its arguments. -/
structure Represents (key : A → K) (enc : V → W) (b : Bucket K W) (m : A → Option V) : Prop where
  get : ∀ a, b.get (key a) = (m a).map enc
  keys : ∀ k w, b.get k = some w → ∃ a, k = key a

namespace Represents

theorem empty : Represents key enc Bucket.empty (fun _ => none) :=
  ⟨fun _ => rfl, fun _ _ h => absurd h (by simp)⟩

variable [DecidableEq A]

theorem put (hkey : Function.Injective key) (h : Represents key enc b m) (a : A) (v : V) :
    Represents key enc (b.put (key a) (enc v)) (Function.update m a (some v)) := by
  constructor
  · intro a'
    rw [Bucket.get_put]
    by_cases ha : a' = a
    · rw [ha, if_pos rfl, Function.update_self]
      rfl
    · rw [if_neg fun hk => ha (hkey hk), Function.update_of_ne ha, h.get]
  · intro k w hk
    rw [Bucket.get_put] at hk
    split_ifs at hk with hka
    · exact ⟨a, hka⟩
    · exact h.keys k w hk

theorem delete (hkey : Function.Injective key) (h : Represents key enc b m) (a : A) :
    Represents key enc (b.delete (key a)) (Function.update m a none) := by
  constructor
  · intro a'
    rw [Bucket.get_delete]
    by_cases ha : a' = a
    · rw [ha, if_pos rfl, Function.update_self]
      rfl
    · rw [if_neg fun hk => ha (hkey hk), Function.update_of_ne ha, h.get]
  · intro k w hk
    rw [Bucket.get_delete] at hk
    split_ifs at hk with hka
    exact h.keys k w hk

omit [DecidableEq A] in
/-- What an entry is. -/
theorem entry (h : Represents key enc b m) {k : K} {w : W} (hk : (k, w) ∈ b.entries) :
    ∃ a v, k = key a ∧ w = enc v ∧ m a = some v := by
  have hget := Bucket.get_eq_some.2 hk
  obtain ⟨a, rfl⟩ := h.keys k w hget
  rw [h.get] at hget
  obtain ⟨v, hv, rfl⟩ := Option.map_eq_some_iff.1 hget
  exact ⟨a, v, rfl, rfl, hv⟩

omit [DecidableEq A] in
/-- **The values of a bucket decode to those of the map**, each under one argument. -/
theorem exists_values (hdec : ∀ v, dec (enc v) = some v) {label : V → A}
    (hlabel : ∀ a v, m a = some v → label v = a) (h : Represents key enc b m) :
    ∃ vs : List V, b.values.mapM dec = some vs ∧ (vs.map label).Nodup ∧
      ∀ a v, m a = some v ↔ v ∈ vs ∧ label v = a := by
  have hinj : Function.Injective enc := fun v v' hv =>
    Option.some.inj (by rw [← hdec v, hv, hdec])
  have hentries : ∀ l : List (K × W), (∀ e ∈ l, ∃ a v, e.1 = key a ∧ e.2 = enc v ∧ m a = some v) →
      ∃ vs : List V, l = vs.map (fun v => (key (label v), enc v)) := by
    intro l hl
    induction l with
    | nil => exact ⟨[], rfl⟩
    | cons e l ih =>
      obtain ⟨vs, rfl⟩ := ih fun e he => hl e (List.mem_cons_of_mem _ he)
      obtain ⟨a, v, hk, hw, hm⟩ := hl e List.mem_cons_self
      refine ⟨v :: vs, ?_⟩
      rw [List.map_cons, hlabel a v hm, ← hk, ← hw]
  obtain ⟨vs, hvs⟩ := hentries b.entries fun e he => h.entry he
  refine ⟨vs, ?_, ?_, fun a v => ⟨fun hm => ?_, ?_⟩⟩
  · rw [Bucket.values, hvs, List.map_map]
    exact mapM_encoded hdec vs
  · have hsorted := b.sorted
    rw [hvs, List.pairwise_map] at hsorted
    rw [List.Nodup, List.pairwise_map]
    refine hsorted.imp fun hlt heq => ?_
    rw [heq] at hlt
    exact lt_irrefl _ hlt
  · have hentry : (key a, enc v) ∈ b.entries := by
      rw [← Bucket.get_eq_some, h.get, hm]
      rfl
    rw [hvs] at hentry
    obtain ⟨v', hv', he⟩ := List.mem_map.1 hentry
    exact ⟨hinj (Prod.mk.inj he).2 ▸ hv', hlabel a v hm⟩
  · rintro ⟨hv, rfl⟩
    have hentry : (key (label v), enc v) ∈ b.entries := by
      rw [hvs]
      exact List.mem_map_of_mem hv
    have hget := Bucket.get_eq_some.2 hentry
    rw [h.get] at hget
    obtain ⟨v', hv', he⟩ := Option.map_eq_some_iff.1 hget
    rw [hv', hinj he]

end Represents

end Bucket

end Lib
