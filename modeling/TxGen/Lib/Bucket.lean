import Mathlib.Data.List.Sort
import Mathlib.Data.List.Lex

/-!
# Buckets: key-ordered maps

A bucket holds at most one value per key and lists its entries in increasing key
order, as the buckets of an embedded key-value store do. `get` reads it as a
partial map; `put` and `delete` are described by what they do to membership, and
two buckets with the same entries are equal.

The value lists of `put` and `delete` are described up to reordering, which is
what an argument about the stored multiset needs.
-/

namespace Lib

/-- A map from `K` to `V` that lists its entries in increasing key order. -/
structure Bucket (K V : Type*) [LinearOrder K] where
  entries : List (K × V)
  sorted : entries.Pairwise (fun a b => a.1 < b.1)

namespace Bucket

variable {K V : Type*} [LinearOrder K]

/-- Insert an entry in key order, replacing the one with the same key. -/
def insertEntry (k : K) (v : V) : List (K × V) → List (K × V)
  | [] => [(k, v)]
  | e :: l => if k < e.1 then (k, v) :: e :: l else if k = e.1 then (k, v) :: l
      else e :: insertEntry k v l

theorem mem_insertEntry_imp {k : K} {v : V} {l : List (K × V)} {x : K × V}
    (h : x ∈ insertEntry k v l) : x = (k, v) ∨ x ∈ l := by
  induction l with
  | nil => simpa [insertEntry] using h
  | cons e l ih =>
    simp only [insertEntry] at h
    split at h
    · simpa using h
    · split at h
      · rcases List.mem_cons.1 h with h | h
        · exact Or.inl h
        · exact Or.inr (List.mem_cons_of_mem _ h)
      · rcases List.mem_cons.1 h with h | h
        · exact Or.inr (by rw [h]; exact List.mem_cons_self)
        · exact (ih h).imp_right (List.mem_cons_of_mem _)

theorem sorted_insertEntry (k : K) (v : V) {l : List (K × V)}
    (hl : l.Pairwise (fun a b => a.1 < b.1)) :
    (insertEntry k v l).Pairwise (fun a b => a.1 < b.1) := by
  induction l with
  | nil => simp [insertEntry]
  | cons e l ih =>
    have he : ∀ x ∈ l, e.1 < x.1 := fun x hx => List.rel_of_pairwise_cons hl hx
    simp only [insertEntry]
    split
    · rename_i hk
      refine List.pairwise_cons.2 ⟨?_, hl⟩
      intro x hx
      rcases List.mem_cons.1 hx with rfl | hx
      · exact hk
      · exact lt_trans hk (he x hx)
    · split
      · rename_i hk
        exact List.pairwise_cons.2 ⟨fun x hx => by rw [hk]; exact he x hx, hl.of_cons⟩
      · rename_i h1 h2
        have hlt : e.1 < k := lt_of_le_of_ne (not_lt.1 h1) (fun h => h2 h.symm)
        refine List.pairwise_cons.2 ⟨?_, ih hl.of_cons⟩
        intro x hx
        rcases mem_insertEntry_imp hx with rfl | hx
        · exact hlt
        · exact he x hx

/-- The empty bucket. -/
def empty : Bucket K V := ⟨[], List.Pairwise.nil⟩

/-- The value at `k`. -/
def get (b : Bucket K V) (k : K) : Option V := (b.entries.find? (fun e => e.1 = k)).map (·.2)

/-- Store `v` at `k`. -/
def put (b : Bucket K V) (k : K) (v : V) : Bucket K V :=
  ⟨insertEntry k v b.entries, sorted_insertEntry k v b.sorted⟩

/-- Remove the entry at `k`, if there is one. -/
def delete (b : Bucket K V) (k : K) : Bucket K V :=
  ⟨b.entries.filter (fun e => e.1 ≠ k), b.sorted.filter _⟩

/-- The values in key order. -/
def values (b : Bucket K V) : List V := b.entries.map (·.2)

/-- The bucket with `f` applied to every value. -/
def mapValues {W : Type*} (f : V → W) (b : Bucket K V) : Bucket K W :=
  ⟨b.entries.map fun e => (e.1, f e.2), List.pairwise_map.2 b.sorted⟩

variable {b b' : Bucket K V} {k k' : K} {v v' : V}

/-! ## Reading -/

theorem eq_of_mem_of_mem (h : (k, v) ∈ b.entries) (h' : (k, v') ∈ b.entries) : v = v' := by
  have hp : b.entries.Pairwise (fun x y => x.1 = y.1 → x.2 = y.2) :=
    b.sorted.imp fun hlt he => absurd he hlt.ne
  have hp' : b.entries.Pairwise (fun x y => y.1 = x.1 → y.2 = x.2) :=
    b.sorted.imp fun hlt he => absurd he hlt.ne'
  exact List.Pairwise.forall_of_forall_of_flip (fun _ _ _ => rfl) hp hp' h h' rfl

theorem get_eq_some : b.get k = some v ↔ (k, v) ∈ b.entries := by
  constructor
  · intro h
    obtain ⟨e, he, rfl⟩ := Option.map_eq_some_iff.1 h
    have hk : e.1 = k := by simpa using List.find?_some he
    have hm := List.mem_of_find?_eq_some he
    rwa [← hk]
  · intro h
    cases hf : b.entries.find? (fun e => e.1 = k) with
    | none => simpa using List.find?_eq_none.1 hf _ h
    | some e =>
      have hk : e.1 = k := by simpa using List.find?_some hf
      have hm : (k, e.2) ∈ b.entries := by rw [← hk]; exact List.mem_of_find?_eq_some hf
      rw [get, hf, eq_of_mem_of_mem h hm]; rfl

theorem get_eq_none : b.get k = none ↔ ∀ v, (k, v) ∉ b.entries := by
  rw [Option.eq_none_iff_forall_ne_some]
  exact forall_congr' fun v => not_congr get_eq_some

theorem mem_values : v ∈ b.values ↔ ∃ k, b.get k = some v := by
  simp only [values, List.mem_map, Prod.exists, exists_eq_right, get_eq_some]

theorem nodup_entries (b : Bucket K V) : b.entries.Nodup :=
  b.sorted.imp fun h he => by rw [he] at h; exact lt_irrefl _ h

/-- Buckets with the same values at the same keys are equal. -/
theorem ext_get (h : ∀ k, b.get k = b'.get k) : b = b' := by
  have hm : ∀ x, x ∈ b.entries ↔ x ∈ b'.entries := by
    intro x
    rw [← Prod.mk.eta (p := x), ← get_eq_some, ← get_eq_some, h]
  have hp : b.entries.Perm b'.entries :=
    (List.perm_ext_iff_of_nodup b.nodup_entries b'.nodup_entries).2 hm
  have he : b.entries = b'.entries :=
    hp.eq_of_pairwise (fun x y _ _ hxy hyx => absurd (lt_trans hxy hyx) (lt_irrefl _))
      b.sorted b'.sorted
  cases b; cases b'; simpa using he

/-! ## Writing -/

theorem mem_put : (k', v') ∈ (b.put k v).entries ↔
    (k' = k ∧ v' = v) ∨ (k' ≠ k ∧ (k', v') ∈ b.entries) := by
  have key : ∀ l : List (K × V), l.Pairwise (fun a b => a.1 < b.1) →
      ((k', v') ∈ insertEntry k v l ↔ (k' = k ∧ v' = v) ∨ (k' ≠ k ∧ (k', v') ∈ l)) := by
    intro l hl
    induction l with
    | nil => simp [insertEntry]
    | cons e l ih =>
      have he : ∀ x ∈ l, e.1 < x.1 := fun x hx => List.rel_of_pairwise_cons hl hx
      simp only [insertEntry]
      split
      · rename_i hk
        have hne : (k', v') ∈ e :: l → k' ≠ k := by
          intro hx hkk
          rcases List.mem_cons.1 hx with hx | hx
          · rw [← hx, hkk] at hk; exact lt_irrefl _ hk
          · have := lt_trans hk (he _ hx); rw [hkk] at this; exact lt_irrefl _ this
        rw [List.mem_cons, Prod.mk.injEq]
        exact or_congr_right ⟨fun hx => ⟨hne hx, hx⟩, And.right⟩
      · split
        · rename_i hk
          have hne : (k', v') ∈ l → k' ≠ k := by
            intro hx hkk; have := he _ hx; rw [← hk, hkk] at this; exact lt_irrefl _ this
          have hee : (k', v') = e → k' = k := by intro h; rw [hk, ← h]
          rw [List.mem_cons, List.mem_cons, Prod.mk.injEq]
          refine or_congr_right ⟨fun hx => ⟨hne hx, Or.inr hx⟩, ?_⟩
          rintro ⟨hkk, hx⟩
          exact hx.resolve_left fun he => hkk (hee he)
        · rename_i hk
          have hee : (k', v') = e → k' ≠ k := by intro h hkk; apply hk; rw [← hkk, ← h]
          rw [List.mem_cons, List.mem_cons, ih hl.of_cons, or_left_comm]
          refine or_congr_right ⟨?_, ?_⟩
          · rintro (he | ⟨hkk, hx⟩)
            · exact ⟨hee he, Or.inl he⟩
            · exact ⟨hkk, Or.inr hx⟩
          · rintro ⟨hkk, hx⟩
            exact hx.imp_right fun hx => ⟨hkk, hx⟩
  exact key b.entries b.sorted

theorem mem_delete : (k', v') ∈ (b.delete k).entries ↔ k' ≠ k ∧ (k', v') ∈ b.entries := by
  simp [delete, and_comm]

theorem get_put : (b.put k v).get k' = if k' = k then some v else b.get k' := by
  apply Option.ext
  intro x
  rw [get_eq_some, mem_put]
  split
  · rename_i h; simp [h, eq_comm]
  · rename_i h; simp [h, get_eq_some]

theorem get_delete : (b.delete k).get k' = if k' = k then none else b.get k' := by
  apply Option.ext
  intro x
  rw [get_eq_some, mem_delete]
  split
  · rename_i h; simp [h]
  · rename_i h; simp [h, get_eq_some]

@[simp] theorem get_empty : (empty : Bucket K V).get k = none := rfl

@[simp] theorem values_empty : (empty : Bucket K V).values = [] := rfl

theorem get_mapValues {W : Type*} (f : V → W) : (b.mapValues f).get k = (b.get k).map f := by
  simp only [get, mapValues, List.find?_map, Option.map_map, Function.comp_def]

theorem values_mapValues {W : Type*} (f : V → W) : (b.mapValues f).values = b.values.map f := by
  simp only [values, mapValues, List.map_map, Function.comp_def]

theorem mapValues_put {W : Type*} (f : V → W) :
    (b.put k v).mapValues f = (b.mapValues f).put k (f v) := by
  apply ext_get
  intro k'
  rw [get_mapValues, get_put, get_put, get_mapValues]
  split_ifs
  · rfl
  · rfl

theorem mapValues_delete {W : Type*} (f : V → W) :
    (b.delete k).mapValues f = (b.mapValues f).delete k := by
  simp only [mapValues, delete, List.filter_map]
  rfl

/-- Storing at a new key adds one value. -/
theorem values_put (h : b.get k = none) : (b.put k v).values.Perm (v :: b.values) := by
  have hn : (k, v) ∉ b.entries := get_eq_none.1 h v
  have hp : (b.put k v).entries.Perm ((k, v) :: b.entries) := by
    refine (List.perm_ext_iff_of_nodup (nodup_entries _) (b.nodup_entries.cons hn)).2 ?_
    rintro ⟨k', v'⟩
    rw [mem_put, List.mem_cons, Prod.mk.injEq]
    refine or_congr_right ⟨And.right, fun hm => ⟨?_, hm⟩⟩
    rintro rfl
    exact get_eq_none.1 h v' hm
  exact hp.map _

/-- Removing an entry removes its value. -/
theorem values_delete (h : b.get k = some v) : b.values.Perm (v :: (b.delete k).values) := by
  have hm := get_eq_some.1 h
  have hn : (k, v) ∉ (b.delete k).entries := by simp [mem_delete]
  have hp : b.entries.Perm ((k, v) :: (b.delete k).entries) := by
    refine (List.perm_ext_iff_of_nodup b.nodup_entries ((nodup_entries _).cons hn)).2 ?_
    rintro ⟨k', v'⟩
    rw [List.mem_cons, mem_delete, Prod.mk.injEq]
    constructor
    · intro hx
      by_cases hk : k' = k
      · subst hk; exact Or.inl ⟨rfl, eq_of_mem_of_mem hx hm⟩
      · exact Or.inr ⟨hk, hx⟩
    · rintro (⟨rfl, rfl⟩ | ⟨-, hx⟩)
      · exact hm
      · exact hx
  exact hp.map _

end Bucket

end Lib
