import TxGen.Lib.Bucket

/-!
# Tables: buckets of records stored under their own key

A table over `key : V → K` is a bucket in which every record is stored under its
own key, so it is determined by the records it holds. Its lemmas speak of
membership in `values`: a record is in the table or not, and two records of the
table with the same key are the same.
-/

namespace Lib

/-- A bucket in which every record is stored under its own key. -/
structure Table {K V : Type*} [LinearOrder K] (key : V → K) where
  bucket : Bucket K V
  keyed : ∀ k v, bucket.get k = some v → k = key v

namespace Table

variable {K V : Type*} [LinearOrder K] {key : V → K}

/-- The empty table. -/
def empty : Table key := ⟨Bucket.empty, fun k v h => by simp at h⟩

/-- The record at `k`. -/
def get (t : Table key) (k : K) : Option V := t.bucket.get k

/-- The records in key order. -/
def values (t : Table key) : List V := t.bucket.values

/-- Store `v`, replacing the record with the same key. -/
def insert (t : Table key) (v : V) : Table key where
  bucket := t.bucket.put (key v) v
  keyed k x h := by
    rw [Bucket.get_put] at h
    split at h
    · rename_i hk; cases h; exact hk
    · exact t.keyed k x h

/-- Remove the record at `k`, if there is one. -/
def erase (t : Table key) (k : K) : Table key where
  bucket := t.bucket.delete k
  keyed k' x h := by
    rw [Bucket.get_delete] at h
    split at h
    · cases h
    · exact t.keyed k' x h

variable {t t' : Table key} {k : K} {v x y : V}

theorem mem_values : v ∈ t.values ↔ t.get (key v) = some v := by
  rw [values, Bucket.mem_values]
  constructor
  · rintro ⟨k, hk⟩
    have := t.keyed k v hk
    rw [this] at hk; exact hk
  · intro h; exact ⟨_, h⟩

theorem get_eq_some (h : t.get k = some v) : v ∈ t.values ∧ key v = k := by
  have hk := t.keyed k v h
  subst hk
  exact ⟨mem_values.2 h, rfl⟩

theorem get_none_of (h : ∀ v ∈ t.values, key v ≠ k) : t.get k = none := by
  cases hg : t.get k with
  | none => rfl
  | some v => exact absurd (get_eq_some hg).2 (h v (get_eq_some hg).1)

theorem eq_of_key (hx : x ∈ t.values) (hy : y ∈ t.values) (h : key x = key y) : x = y := by
  have h1 := mem_values.1 hx
  rw [h, mem_values.1 hy] at h1
  exact (Option.some.inj h1).symm

/-- Tables with the same records are equal. -/
theorem ext_mem (h : ∀ v, v ∈ t.values ↔ v ∈ t'.values) : t = t' := by
  have hb : t.bucket = t'.bucket := by
    apply Bucket.ext_get
    intro k
    apply Option.ext
    intro v
    constructor
    · intro hv
      have hk := t.keyed k v hv
      rw [hk] at hv ⊢
      exact mem_values.1 ((h v).1 (mem_values.2 hv))
    · intro hv
      have hk := t'.keyed k v hv
      rw [hk] at hv ⊢
      exact mem_values.1 ((h v).2 (mem_values.2 hv))
  cases t; cases t'; simpa using hb

/-- Every entry is a record under its own key. -/
theorem entries_eq (t : Table key) : t.bucket.entries = t.values.map fun v => (key v, v) := by
  have he : ∀ e ∈ t.bucket.entries, e = (key e.2, e.2) := by
    rintro ⟨k, v⟩ he
    rw [t.keyed k v (Bucket.get_eq_some.2 he)]
  rw [values, Bucket.values, List.map_map]
  exact (List.map_id'' (fun _ => rfl) _).symm.trans (List.map_congr_left he)

theorem nodup_values (t : Table key) : t.values.Nodup := by
  have h : (t.values.map key).Nodup := by
    have he : t.values.map key = t.bucket.entries.map (·.1) := by
      rw [entries_eq, List.map_map]; rfl
    rw [he]
    exact List.pairwise_map.2 (t.bucket.sorted.imp fun hlt => hlt.ne)
  exact List.Nodup.of_map key h

theorem mem_insert : x ∈ (t.insert v).values ↔ x = v ∨ (key x ≠ key v ∧ x ∈ t.values) := by
  rw [mem_values, mem_values, get, insert, Bucket.get_put]
  split
  · rename_i hk
    simp only [hk, ne_eq, not_true_eq_false, false_and, or_false, Option.some.injEq]
    exact eq_comm
  · rename_i hk
    have : x ≠ v := fun he => hk (by rw [he])
    simp [this, hk, get]

theorem mem_erase : x ∈ (t.erase k).values ↔ key x ≠ k ∧ x ∈ t.values := by
  rw [mem_values, mem_values, get, erase, Bucket.get_delete]
  split
  · rename_i hk; simp [hk]
  · rename_i hk; simp [hk, get]

/-- Storing what is already there changes nothing. -/
theorem insert_of_mem (h : v ∈ t.values) : t.insert v = t := by
  apply ext_mem
  intro x
  rw [mem_insert]
  constructor
  · rintro (rfl | ⟨-, hx⟩)
    · exact h
    · exact hx
  · intro hx
    by_cases hk : key x = key v
    · exact Or.inl (eq_of_key hx h hk)
    · exact Or.inr ⟨hk, hx⟩

/-- Storing a record with a new key adds it. -/
theorem values_insert (h : ∀ x ∈ t.values, key x ≠ key v) :
    (t.insert v).values.Perm (v :: t.values) :=
  Bucket.values_put (get_none_of h)

/-- Removing a record takes it out. -/
theorem values_erase (h : v ∈ t.values) : t.values.Perm (v :: (t.erase (key v)).values) :=
  Bucket.values_delete (mem_values.1 h)

@[simp] theorem values_empty : (empty : Table key).values = [] := rfl

end Table

end Lib
