import TxGen.Lib.Represent
import TxGen.Proof.Restore
import TxGen.Spec.File
import Mathlib.Logic.Equiv.List

/-!
# The state file is a faithful map

Each bucket represents its part of the abstract map in the sense of
`TxGen.Lib.Represent`, because the keys of UTXOs separate outpoints, and every call is an
update of the map (`Refines.apply`). So after any calls, `LoadAll` lists one UTXO for each
outpoint of the map and `LoadPending` returns its pending broadcasts (`file_faithful`).

The contents that `New` reads are those of such a file (`Shows`).
-/

namespace TxGen

open Lib

/-- **Different outpoints have different keys.** -/
theorem utxoKey_injective : Function.Injective fun o : Bytes × ℕ => utxoKey o.1 o.2 := by
  rintro ⟨txid, vout⟩ ⟨txid', vout'⟩ h
  have hkey : UTXO.key ⟨txid, vout, 0, 0⟩ = UTXO.key ⟨txid', vout', 0, 0⟩ := h
  obtain ⟨h1, h2⟩ := key_inj hkey
  exact Prod.ext h1 h2

theorem putEntry_ok {b : Bucket Bytes Bytes} {key value : Bytes} (h0 : key ≠ [])
    (hfit : key.length ≤ maxKeySize) : putEntry b key value = .ok (b.put key value) := by
  rw [putEntry, if_neg h0, if_neg (by omega)]

theorem utxoKey_ne_nil (txid : Bytes) (vout : ℕ) : utxoKey txid vout ≠ [] := by
  simp [utxoKey]

/-- The file `f` holds the contents `m`. -/
structure Refines (gob : Gob) (f : File) (m : StoreMap) : Prop where
  utxos : f.utxos.Represents (fun o : Bytes × ℕ => utxoKey o.1 o.2) gob.encodeUTXO m.utxos
  pending : f.pending.Represents id gob.encodePending m.pending
  settings : f.settings.Represents id id m.settings
  /-- every UTXO is stored under its outpoint -/
  placed : ∀ o u, m.utxos o = some u → StoreMap.place u = o
  /-- every record is stored under its txid, which is not empty -/
  named : ∀ txid p, m.pending txid = some p → p.txID = txid ∧ txid ≠ []

section Update

variable {A V : Type} [DecidableEq A] {m : A → Option V} {P : A → V → Prop}

/-- A property of all entries survives storing one that has it and removing any. -/
theorem forall_update {a : A} {x : Option V} (h : ∀ a v, m a = some v → P a v)
    (hx : ∀ v ∈ x, P a v) : ∀ a' v, Function.update m a x a' = some v → P a' v := by
  intro a' v hv
  by_cases ha : a' = a
  · subst ha
    rw [Function.update_self] at hv
    exact hx v hv
  · rw [Function.update_of_ne ha] at hv
    exact h a' v hv

theorem forall_update_none (a : A) (h : ∀ a v, m a = some v → P a v) :
    ∀ a' v, Function.update m a none a' = some v → P a' v :=
  forall_update h fun v hv => absurd hv (Option.not_mem_none v)

end Update

namespace Refines

variable {gob : Gob} {f : File} {m : StoreMap}

theorem empty : Refines gob File.empty StoreMap.empty :=
  ⟨.empty, .empty, .empty, fun _ _ h => absurd h (by simp [StoreMap.empty]),
    fun _ _ h => absurd h (by simp [StoreMap.empty])⟩

/-- The spent UTXOs of a commit. -/
theorem removed {b : Bucket Bytes Bytes} {g : Bytes × ℕ → Option UTXO}
    (hb : b.Represents (fun o : Bytes × ℕ => utxoKey o.1 o.2) gob.encodeUTXO g)
    (hg : ∀ o u, g o = some u → StoreMap.place u = o) (spent : List UTXO) :
    (spent.foldl (fun b u => b.delete (utxoKey u.txHash u.txPos)) b).Represents
        (fun o : Bytes × ℕ => utxoKey o.1 o.2) gob.encodeUTXO
        (spent.foldl (fun f u => Function.update f (StoreMap.place u) none) g) ∧
      ∀ o u, spent.foldl (fun f u => Function.update f (StoreMap.place u) none) g o = some u →
        StoreMap.place u = o := by
  induction spent generalizing b g with
  | nil => exact ⟨hb, hg⟩
  | cons u spent ih =>
    exact ih (hb.delete utxoKey_injective (StoreMap.place u))
      (forall_update_none (StoreMap.place u) hg)

/-- The created ones. -/
theorem created {b : Bucket Bytes Bytes} {g : Bytes × ℕ → Option UTXO}
    (hb : b.Represents (fun o : Bytes × ℕ => utxoKey o.1 o.2) gob.encodeUTXO g)
    (hg : ∀ o u, g o = some u → StoreMap.place u = o) {created : List UTXO}
    (hfit : ∀ u ∈ created, (utxoKey u.txHash u.txPos).length ≤ maxKeySize) :
    ∃ b', File.putCreated gob b created = .ok b' ∧
      b'.Represents (fun o : Bytes × ℕ => utxoKey o.1 o.2) gob.encodeUTXO
        (created.foldl (fun f u => if u.value = 0 then f
          else Function.update f (StoreMap.place u) (some u)) g) ∧
      ∀ o u, created.foldl (fun f u => if u.value = 0 then f
          else Function.update f (StoreMap.place u) (some u)) g o = some u →
        StoreMap.place u = o := by
  induction created generalizing b g with
  | nil => exact ⟨b, rfl, hb, hg⟩
  | cons u created ih =>
    have hrest : ∀ v ∈ created, (utxoKey v.txHash v.txPos).length ≤ maxKeySize :=
      fun v hv => hfit v (List.mem_cons_of_mem _ hv)
    simp only [File.putCreated, List.foldlM_cons, List.foldl_cons]
    by_cases h0 : u.value = 0
    · -- skipped by the file and by the map
      simp only [if_pos h0]
      exact ih hb hg hrest
    · simp only [if_neg h0, putEntry_ok (utxoKey_ne_nil _ _) (hfit u List.mem_cons_self)]
      refine ih (hb.put utxoKey_injective (StoreMap.place u) u) (forall_update hg ?_) hrest
      rintro v ⟨rfl⟩
      rfl

/-- **A call is an update of the map.** -/
theorem exec (h : Refines gob f m) {op : FileOp} (hfit : op.Fits) :
    Refines gob (f.exec gob op) (m.apply op) := by
  cases op with
  | saveUTXO u =>
    have hput : f.saveUTXO gob u = .ok { f with
        utxos := f.utxos.put (utxoKey u.txHash u.txPos) (gob.encodeUTXO u) } := by
      rw [File.saveUTXO, putEntry_ok (utxoKey_ne_nil _ _) hfit]
      rfl
    simp only [File.exec, File.apply, hput]
    refine ⟨h.utxos.put utxoKey_injective (StoreMap.place u) u, h.pending, h.settings,
      forall_update h.placed ?_, h.named⟩
    rintro v ⟨rfl⟩
    rfl
  | deleteUTXO txid vout =>
    exact ⟨h.utxos.delete utxoKey_injective (txid, vout), h.pending, h.settings,
      forall_update_none (txid, vout) h.placed, h.named⟩
  | setMeta key value =>
    by_cases h0 : key = []
    · -- `Put` refuses the empty key, and the transaction is rolled back
      have hfail : f.setMeta key value = .error .keyRequired := by
        rw [File.setMeta, putEntry, if_pos h0]
        rfl
      simp only [File.exec, File.apply, hfail, StoreMap.apply, if_pos h0]
      exact h
    · have hput : f.setMeta key value = .ok { f with settings := f.settings.put key value } := by
        rw [File.setMeta, putEntry_ok h0 hfit]
        rfl
      simp only [File.exec, File.apply, hput, StoreMap.apply, if_neg h0]
      exact ⟨h.utxos, h.pending, h.settings.put Function.injective_id key value, h.placed, h.named⟩
  | savePending p now =>
    by_cases h0 : p.txID = []
    · simp only [File.exec, File.apply, File.savePending, StoreMap.apply, if_pos h0]
      exact h
    · have hput : f.savePending gob p now = .ok { f with
          pending := f.pending.put p.txID (gob.encodePending
            { p with savedAt := if p.savedAt = 0 then now else p.savedAt }) } := by
        rw [File.savePending, if_neg h0]
        simp only [putEntry_ok h0 hfit]
        rfl
      simp only [File.exec, File.apply, hput, StoreMap.apply, if_neg h0]
      refine ⟨h.utxos, h.pending.put Function.injective_id p.txID _, h.settings, h.placed,
        forall_update h.named ?_⟩
      rintro v ⟨rfl⟩
      exact ⟨rfl, h0⟩
  | clearPending txid =>
    exact ⟨h.utxos, h.pending.delete Function.injective_id txid, h.settings, h.placed,
      forall_update_none txid h.named⟩
  | commitPending txid spent created =>
    -- the same order on both sides: spent UTXOs first, then the created ones
    obtain ⟨hrem, hplaced⟩ := removed h.utxos h.placed spent
    obtain ⟨b, hb, hrep, hplaced'⟩ := Refines.created hrem hplaced hfit
    have hcommit : f.commitPending gob txid spent created = .ok { f with
        pending := if txid = [] then f.pending else f.pending.delete txid, utxos := b } := by
      simp only [File.commitPending, hb]
      rfl
    simp only [File.exec, File.apply, hcommit]
    refine ⟨hrep, ?_, h.settings, hplaced', ?_⟩
    · simp only [StoreMap.apply]
      split_ifs
      · exact h.pending
      · exact h.pending.delete Function.injective_id txid
    · simp only [StoreMap.apply]
      split_ifs
      · exact h.named
      · exact forall_update_none txid h.named

/-- **Any calls.** -/
theorem execs {ops : List FileOp} (h : Refines gob f m) (hfit : ∀ op ∈ ops, op.Fits) :
    Refines gob (ops.foldl (File.exec gob) f) (ops.foldl StoreMap.apply m) := by
  induction ops generalizing f m with
  | nil => exact h
  | cons op ops ih =>
    exact ih (h.exec (hfit op List.mem_cons_self)) fun op' hop =>
      hfit op' (List.mem_cons_of_mem _ hop)

/-- What `LoadPending` returns. -/
theorem loadPending (h : Refines gob f m) (txid : Bytes) : f.loadPending gob txid = m.pending txid := by
  have hget : f.pending.get txid = (m.pending txid).map gob.encodePending := h.pending.get txid
  rw [File.loadPending, hget]
  cases hp : m.pending txid with
  | none => rfl
  | some p =>
    obtain ⟨hid, hne⟩ := h.named txid p hp
    have hrec : loadRecord gob.decodePending txid (gob.encodePending p) = p := by
      rw [loadRecord, gob.decode_encodePending, Option.getD_some, if_neg (by rw [hid]; exact hne)]
    rw [Option.map_some, Option.map_some, hrec]

end Refines

/-- A call leaves the buckets alone that it does not write to. -/
theorem File.bucket_exec (gob : Gob) (f : File) {op : FileOp} {name : BucketName}
    (h : name ∉ op.writes) : (f.exec gob op).bucket name = f.bucket name := by
  rw [File.exec]
  cases hf : f.apply gob op with
  | error e => rfl
  | ok f' =>
    cases op with
    | saveUTXO u | setMeta key value | commitPending txid spent created =>
      obtain ⟨b, -, hb⟩ := bind_ok hf
      cases hb
      cases name <;> first | rfl | simp [FileOp.writes] at h
    | deleteUTXO txid vout | clearPending txid =>
      cases hf
      cases name <;> first | rfl | simp [FileOp.writes] at h
    | savePending p now =>
      rw [File.apply, File.savePending] at hf
      by_cases h0 : p.txID = []
      · rw [if_pos h0] at hf
        cases hf
      rw [if_neg h0] at hf
      obtain ⟨b, -, hb⟩ := bind_ok hf
      cases hb
      cases name <;> first | rfl | simp [FileOp.writes] at h

/-- **The state file is a faithful map.** After any calls whose keys fit into a bucket,
`LoadAll` lists exactly one UTXO for each outpoint of the abstract map, `LoadPending`
returns the record of each txid, and `GetMeta` the settings; no call touches a bucket it
does not write to, and no two outpoints share a key. -/
theorem file_faithful (gob : Gob) (ops : List FileOp) (hfit : ∀ op ∈ ops, op.Fits) :
    (∃ us, (ops.foldl (File.exec gob) File.empty).loadAll gob = some us ∧
        (us.map StoreMap.place).Nodup ∧
        ∀ o u, (ops.foldl StoreMap.apply StoreMap.empty).utxos o = some u ↔
          u ∈ us ∧ StoreMap.place u = o) ∧
      (∀ txid, (ops.foldl (File.exec gob) File.empty).loadPending gob txid =
        (ops.foldl StoreMap.apply StoreMap.empty).pending txid) ∧
      (∀ key, (ops.foldl (File.exec gob) File.empty).getMeta key =
        ((ops.foldl StoreMap.apply StoreMap.empty).settings key).getD []) ∧
      (∀ (f : File) (op : FileOp) (name : BucketName), name ∉ op.writes →
        (f.exec gob op).bucket name = f.bucket name) ∧
      Function.Injective fun o : Bytes × ℕ => utxoKey o.1 o.2 := by
  have hempty : Refines gob File.empty StoreMap.empty := Refines.empty
  have h := hempty.execs hfit
  refine ⟨h.utxos.exists_values gob.decode_encodeUTXO h.placed, h.loadPending, fun key => ?_,
    fun f op name hname => f.bucket_exec gob hname, utxoKey_injective⟩
  rw [File.getMeta, show Bucket.get _ key = _ from h.settings.get key, Option.map_id]
  rfl

namespace Concrete

/-- The fields of a UTXO and of a pending record. -/
def utxoFields (u : UTXO) : Bytes × ℕ × ℕ × ℤ := (u.txHash, u.txPos, u.value, u.height)

def utxoOfFields (x : Bytes × ℕ × ℕ × ℤ) : UTXO := ⟨x.1, x.2.1, x.2.2.1, x.2.2.2⟩

def pendingFields (p : RawPending) :
    Bytes × Bytes × List (Bytes × ℕ × ℕ × ℤ) × List (Bytes × ℕ × ℕ × ℤ) × Bytes × ℕ :=
  (p.txID, p.ef, p.spent.map utxoFields, p.created.map utxoFields, p.stage, p.savedAt)

def pendingOfFields
    (x : Bytes × Bytes × List (Bytes × ℕ × ℕ × ℤ) × List (Bytes × ℕ × ℕ × ℤ) × Bytes × ℕ) :
    RawPending :=
  ⟨x.1, x.2.1, x.2.2.1.map utxoOfFields, x.2.2.2.1.map utxoOfFields, x.2.2.2.2.1, x.2.2.2.2.2⟩

/-- Records written as the decimal digits of a number that encodes their fields. -/
def digitGob : Gob where
  encodeUTXO u := appendUint (Encodable.encode (utxoFields u))
  decodeUTXO b := (Encodable.decode (readUint b)).map utxoOfFields
  decode_encodeUTXO u := by
    rw [readUint_appendUint, Encodable.encodek]
    rfl
  encodePending p := appendUint (Encodable.encode (pendingFields p))
  decodePending b := (Encodable.decode (readUint b)).map pendingOfFields
  decode_encodePending p := by
    have hutxos : ∀ us : List UTXO, (us.map utxoFields).map utxoOfFields = us := by
      intro us
      rw [List.map_map]
      exact List.map_id us
    rw [readUint_appendUint, Encodable.encodek, Option.map_some, pendingOfFields, pendingFields]
    simp only [hutxos]

/-- Two UTXOs whose txids and indices run together, one of them spent in a commit. -/
def colonOps : List FileOp :=
  [.saveUTXO ⟨[97, 58, 49], 2, 5, 0⟩, .saveUTXO ⟨[97], 12, 7, 0⟩, .setMeta [] [1],
    .savePending ⟨[98], [], [⟨[97], 12, 7, 0⟩], [⟨[98], 0, 6, 0⟩], [], 0⟩ 3,
    .commitPending [98] [⟨[97], 12, 7, 0⟩] [⟨[98], 0, 6, 0⟩, ⟨[98], 1, 0, 0⟩]]

end Concrete

/-- The other UTXO and the created one worth something are left, and no record. -/
theorem file_faithful_colon :
    (∃ us, (Concrete.colonOps.foldl (File.exec Concrete.digitGob) File.empty).loadAll
        Concrete.digitGob = some us ∧ ⟨[97, 58, 49], 2, 5, 0⟩ ∈ us ∧ ⟨[98], 0, 6, 0⟩ ∈ us ∧
        ⟨[97], 12, 7, 0⟩ ∉ us ∧ ⟨[98], 1, 0, 0⟩ ∉ us) ∧
      (Concrete.colonOps.foldl (File.exec Concrete.digitGob) File.empty).loadPending
        Concrete.digitGob [98] = none := by
  obtain ⟨⟨us, hus, -, hmem⟩, hpending, -⟩ :=
    file_faithful Concrete.digitGob Concrete.colonOps (by decide)
  refine ⟨⟨us, hus, ?_, ?_, fun h => ?_, fun h => ?_⟩, (hpending [98]).trans (by decide)⟩
  · exact ((hmem ([97, 58, 49], 2) _).1 (by decide)).1
  · exact ((hmem ([98], 0) _).1 (by decide)).1
  · exact absurd ((hmem _ _).2 ⟨h, rfl⟩) (by decide)
  · exact absurd ((hmem _ _).2 ⟨h, rfl⟩) (by decide)

/-! ## What `New` reads -/

/-- The setting that holds the bootstrap stage. -/
def metaBootstrapStage : Bytes := ascii "bootstrap_stage"

/-- The contents `r` are those of the file. -/
structure File.Shows (gob : Gob) (f : File) (r : RawStore) : Prop where
  utxos : f.utxos = r.utxos.bucket.mapValues gob.encodeUTXO
  pending : f.pending = r.pending
  stage : f.getMeta metaBootstrapStage = r.stage

namespace File.Shows

variable {gob : Gob} {f : File} {r : RawStore}

theorem loadAll (h : f.Shows gob r) : f.loadAll gob = some r.loadAll := by
  rw [File.loadAll, h.utxos, Bucket.values_mapValues]
  exact mapM_encoded gob.decode_encodeUTXO _

theorem saveUTXO (h : f.Shows gob r) {u : UTXO} (hfit : u.key.length ≤ maxKeySize) :
    ∃ f', f.saveUTXO gob u = .ok f' ∧ f'.Shows gob (r.saveUTXO u) := by
  refine ⟨{ f with utxos := f.utxos.put u.key (gob.encodeUTXO u) }, ?_, ?_, h.pending, h.stage⟩
  · rw [File.saveUTXO, putEntry_ok (utxoKey_ne_nil _ _) hfit]
    rfl
  · show f.utxos.put u.key (gob.encodeUTXO u) = (r.utxos.bucket.put u.key u).mapValues _
    rw [Bucket.mapValues_put, h.utxos]

theorem commitPending (h : f.Shows gob r) (txid : Bytes) (spent : List UTXO) {created : List UTXO}
    (hfit : ∀ u ∈ created, u.key.length ≤ maxKeySize) :
    ∃ f', f.commitPending gob txid spent created = .ok f' ∧
      f'.Shows gob (r.commitPending txid spent created) := by
  have hrem : ∀ (b : Bucket Bytes Bytes) (t : Table UTXO.key),
      b = t.bucket.mapValues gob.encodeUTXO →
      spent.foldl (fun b u => b.delete (utxoKey u.txHash u.txPos)) b =
        (spent.foldl (fun t u => t.erase u.key) t).bucket.mapValues gob.encodeUTXO := by
    induction spent with
    | nil => exact fun b t hb => hb
    | cons u spent ih =>
      intro b t hb
      refine ih _ _ ?_
      show b.delete u.key = (t.bucket.delete u.key).mapValues _
      rw [Bucket.mapValues_delete, hb]
  have hadd : ∀ (b : Bucket Bytes Bytes) (t : Table UTXO.key),
      b = t.bucket.mapValues gob.encodeUTXO →
      File.putCreated gob b created = .ok ((created.foldl (fun t u =>
        if u.value = 0 then t else t.insert u) t).bucket.mapValues gob.encodeUTXO) := by
    induction created with
    | nil =>
      intro b t hb
      rw [hb]
      rfl
    | cons u created ih =>
      intro b t hb
      have hrest : ∀ v ∈ created, v.key.length ≤ maxKeySize :=
        fun v hv => hfit v (List.mem_cons_of_mem _ hv)
      simp only [File.putCreated, List.foldlM_cons, List.foldl_cons]
      by_cases h0 : u.value = 0
      · simp only [if_pos h0]
        exact ih hrest b t hb
      · simp only [if_neg h0, putEntry_ok (utxoKey_ne_nil _ _) (hfit u List.mem_cons_self)]
        refine ih hrest _ _ ?_
        show b.put u.key (gob.encodeUTXO u) = (t.bucket.put u.key u).mapValues _
        rw [Bucket.mapValues_put, hb]
  refine ⟨{ f with
    pending := if txid = [] then f.pending else f.pending.delete txid
    utxos := (r.commitPending txid spent created).utxos.bucket.mapValues gob.encodeUTXO },
    ?_, rfl, ?_, h.stage⟩
  · simp only [File.commitPending, hadd _ _ (hrem _ _ h.utxos)]
    rfl
  · show (if txid = [] then f.pending else f.pending.delete txid) =
      if txid = [] then r.pending else r.pending.delete txid
    rw [h.pending]

end File.Shows

end TxGen
