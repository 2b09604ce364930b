import Mathlib.Algebra.Order.Ring.Int
import Mathlib.Data.List.Nodup
import Mathlib.Data.List.Pairwise
import TxGen.Lib.Json

/-!
# Records from JSON

How a decoder that follows a table of fields fills a record from an object. The members
come one after the other: each is decoded into the first field its key names, over what
the field holds by then, and a key that names none is passed over. A value that does not
fit fails the whole.

In a `Lawful` table no two fields go by one name or share what they hold, and a record is
known by its fields. Then each field only depends on the members that name it
(`intoRecord_object`), so that their order and other members make no difference.
-/

namespace Lib

open Utf8

variable {S F : Type}

/-! ## Decoding -/

/-- How deep values may nest. -/
def maxNestingDepth : ℕ := 10000

/-- A letter as names of fields are compared. Two letters outside ASCII are variants of
letters in it, the long s and the sign for Kelvin. -/
def foldChar (c : Char) : Char :=
  if 'A' ≤ c ∧ c ≤ 'Z' then Char.ofNat (c.toNat + 32)
  else if c = Char.ofNat 0x17f then 's'
  else if c = Char.ofNat 0x212a then 'k'
  else c

/-- A key names a field, whatever the case of its letters. -/
def names (key : List Char) (field : String) : Bool :=
  key.map foldChar = field.toList.map foldChar

/-- A number as a signed integer of `w` bits. -/
def signed (w : ℕ) (l : List Byte) : Option ℤ :=
  (Json.intLiteral l).filter fun n => -2 ^ (w - 1) ≤ n && n < 2 ^ (w - 1)

/-- A number as an unsigned integer of `w` bits. -/
def unsigned (w : ℕ) (l : List Byte) : Option ℕ := (Json.natLiteral l).filter fun n => n < 2 ^ w

/-- A value decoded into a string: null leaves it. -/
def intoString (old : List Char) : Json → Option (List Char)
  | .null => some old
  | .string s => some s
  | _ => none

/-- A value decoded into a number: null leaves it. -/
def intoNumber (literal : List Byte → Option F) (old : F) : Json → Option F
  | .null => some old
  | .number l => literal l
  | _ => none

/-- A value decoded into a pointer: null resets it, and another is decoded into what it
points to. -/
def intoPointer (zero : F) (into : F → Json → Option F) (old : Option F) : Json → Option (Option F)
  | .null => some none
  | v => (into (old.getD zero) v).map some

/-- Items decoded one by one over those that are there. -/
def intoItems (zero : F) (into : F → Json → Option F) : List F → List Json → Option (List F)
  | _, [] => some []
  | old, v :: vs => do
    let x ← into (old.headD zero) v
    let xs ← intoItems zero into old.tail vs
    return x :: xs

/-- A slice: its elements, and those that lie behind them in its array. What is behind
those is zero. -/
structure Slice (F : Type) where
  items : List F
  behind : List F
  deriving DecidableEq, Repr

def Slice.empty : Slice F := ⟨[], []⟩

/-- A value decoded into a slice: null and an array without items reset it, and other
items are decoded into the elements of its array, also into those behind the slice. -/
def intoSlice (zero : F) (into : F → Json → Option F) (old : Slice F) : Json → Option (Slice F)
  | .null | .array [] => some .empty
  | .array vs => (intoItems zero into (old.items ++ old.behind) vs).map fun xs =>
      ⟨xs, (old.items ++ old.behind).drop xs.length⟩
  | _ => none

/-- A field of a record: its name, how it is read and written, and a value decoded into
what it holds. -/
structure RecordField (S : Type) where
  name : String
  Value : Type
  get : S → Value
  put : S → Value → S
  into : Value → Json → Option Value

/-- The field with these parts. -/
def RecordField.of (name : String) (get : S → F) (put : S → F → S) (into : F → Json → Option F) :
    RecordField S :=
  ⟨name, F, get, put, into⟩

/-- A value decoded into a field of a record. -/
def RecordField.set (f : RecordField S) (s : S) (v : Json) : Option S :=
  (f.into (f.get s) v).map (f.put s)

/-- A member of an object decoded into a record. -/
def decodeMember (fields : List (RecordField S)) (s : S) (m : List Char × Json) : Option S :=
  match fields.find? fun f => names m.1 f.name with
  | some f => f.set s m.2
  | none => some s

/-- A value decoded into a record: null leaves it. -/
def intoRecord (fields : List (RecordField S)) (s : S) : Json → Option S
  | .null => some s
  | .object ms => ms.foldlM (decodeMember fields) s
  | _ => none

/-- `into` at the value a text is of. -/
def unmarshal (zero : S) (into : S → Json → Option S) (data : List Byte) : Option S :=
  (Json.document maxNestingDepth data).bind (into zero)

/-! ## Records field by field -/

/-- The values of the members that name a field. -/
def valuesOf (name : String) (ms : List (List Char × Json)) : List Json :=
  (ms.filter fun m => names m.1 name).map Prod.snd

theorem valuesOf_cons (name : String) (m : List Char × Json) (ms : List (List Char × Json)) :
    valuesOf name (m :: ms) =
      if names m.1 name then m.2 :: valuesOf name ms else valuesOf name ms := by
  rw [valuesOf, List.filter_cons]
  split <;> rfl

/-- Writing one field leaves the other. -/
def RecordField.Apart (f g : RecordField S) : Prop :=
  (∀ s x, f.get (g.put s x) = f.get s) ∧ ∀ s x, g.get (f.put s x) = g.get s

instance : Std.Symm (RecordField.Apart (S := S)) where
  symm _ _ h := ⟨h.2, h.1⟩

/-- The fields of the table go by different names and are apart, and a record is known by
them. -/
structure Lawful (fields : List (RecordField S)) : Prop where
  distinct : (fields.map fun f => f.name.toList.map foldChar).Nodup
  apart : fields.Pairwise RecordField.Apart
  get_put : ∀ f ∈ fields, ∀ s x, f.get (f.put s x) = x
  ext : ∀ s t, (∀ f ∈ fields, f.get s = f.get t) → s = t

namespace Lawful

variable {fields : List (RecordField S)} {f g : RecordField S}

/-- A key that names two fields names one. -/
theorem eq_of_names (h : Lawful fields) (hf : f ∈ fields) (hg : g ∈ fields) {key : List Char}
    (hfkey : names key f.name = true) (hgkey : names key g.name = true) : f = g := by
  rw [names, decide_eq_true_eq] at hfkey hgkey
  exact List.inj_on_of_nodup_map h.distinct hf hg (hfkey.symm.trans hgkey)

theorem get_put_of_ne (h : Lawful fields) (hf : f ∈ fields) (hg : g ∈ fields) (hne : g ≠ f) (s : S)
    (x : g.Value) : f.get (g.put s x) = f.get s :=
  (h.apart.forall hg hf hne).2 s x

/-- **A field depends on the members that name it**: an object is decoded exactly when
the members of each field are, one after the other. -/
theorem foldlM_decodeMember (h : Lawful fields) (ms : List (List Char × Json)) (s t : S) :
    ms.foldlM (decodeMember fields) s = some t ↔
      ∀ f ∈ fields, (valuesOf f.name ms).foldlM f.into (f.get s) = some (f.get t) := by
  induction ms generalizing s with
  | nil =>
    constructor
    · intro hst f _
      rw [Option.some.inj hst]
      rfl
    · intro hst
      exact congrArg some (h.ext s t fun f hf => Option.some.inj (hst f hf))
  | cons m ms ih =>
    rw [List.foldlM_cons, decodeMember]
    cases hfind : fields.find? fun f => names m.1 f.name with
    | none =>
      -- the member is passed over, and counts for no field
      have hvalues : ∀ f ∈ fields, valuesOf f.name (m :: ms) = valuesOf f.name ms := by
        intro f hf
        rw [valuesOf_cons, if_neg (List.find?_eq_none.1 hfind f hf)]
      refine (ih s).trans (forall₂_congr fun f hf => ?_)
      rw [hvalues f hf]
    | some g =>
      have hg := List.mem_of_find?_eq_some hfind
      have hgkey : names m.1 g.name = true :=
        List.find?_some (p := fun f : RecordField S => names m.1 f.name) hfind
      have hvalues : ∀ f ∈ fields, g ≠ f → valuesOf f.name (m :: ms) = valuesOf f.name ms := by
        intro f hf hne
        rw [valuesOf_cons, if_neg fun hfkey => hne (h.eq_of_names hg hf hgkey hfkey)]
      have hown : valuesOf g.name (m :: ms) = m.2 :: valuesOf g.name ms := by
        rw [valuesOf_cons, if_pos hgkey]
      dsimp only
      rw [RecordField.set]
      cases hinto : g.into (g.get s) m.2 with
      | none =>
        refine iff_of_false nofun fun hall => ?_
        have hfold := hall g hg
        rw [hown, List.foldlM_cons, hinto] at hfold
        cases hfold
      | some x =>
        refine (ih (g.put s x)).trans (forall₂_congr fun f hf => ?_)
        by_cases hne : g = f
        · subst hne
          rw [hown, List.foldlM_cons, hinto, h.get_put g hg]
          rfl
        · rw [hvalues f hf hne, h.get_put_of_ne hf hg hne]

theorem intoRecord_object (h : Lawful fields) (ms : List (List Char × Json)) (s t : S) :
    intoRecord fields s (.object ms) = some t ↔
      ∀ f ∈ fields, (valuesOf f.name ms).foldlM f.into (f.get s) = some (f.get t) :=
  h.foldlM_decodeMember ms s t

end Lawful

/-! ## What members say -/

/-- At most one member names a field. It has a value as `P` says; where there is none, or
it is null, the field is zero. -/
def Says (name : String) (zero : F) (P : F → Json → Prop) (x : F) (ms : List (List Char × Json)) :
    Prop :=
  (∃ v, valuesOf name ms = [v] ∧ P x v) ∨
    x = zero ∧ (valuesOf name ms = [] ∨ valuesOf name ms = [.null])

/-- The value is a string. -/
def IsString (s : List Char) (v : Json) : Prop := v = .string s

/-- The value is a number. -/
def IsNumber (literal : List Byte → Option F) (n : F) (v : Json) : Prop :=
  ∃ l, v = .number l ∧ literal l = some n

/-- The value is an object. -/
def IsObject (P : List (List Char × Json) → Prop) (v : Json) : Prop := ∃ ms, v = .object ms ∧ P ms

/-- There is something, and the value is what `P` says of it. -/
def IsSome (P : F → Json → Prop) (x : Option F) (v : Json) : Prop := ∃ y, x = some y ∧ P y v

/-- The value is an array, with nothing behind its items. -/
def IsArray (P : F → Json → Prop) (xs : Slice F) (v : Json) : Prop :=
  xs.behind = [] ∧ ∃ vs, v = .array vs ∧ List.Forall₂ P xs.items vs

/-- A field is decoded to what the members say. -/
theorem Says.decode {name : String} {zero : F} {P : F → Json → Prop} {x : F}
    {ms : List (List Char × Json)} (h : Says name zero P x ms) {into : F → Json → Option F}
    (hP : ∀ v, P x v → into zero v = some x) (hnull : into zero .null = some zero) :
    (valuesOf name ms).foldlM into zero = some x := by
  obtain ⟨v, hv, hx⟩ | ⟨rfl, hv | hv⟩ := h
  · rw [hv, List.foldlM_cons, hP v hx]
    rfl
  · rw [hv]
    rfl
  · rw [hv, List.foldlM_cons, hnull]
    rfl

theorem IsString.into {s : List Char} {v : Json} (h : IsString s v) (old : List Char) :
    intoString old v = some s := by
  rw [IsString] at h
  rw [h, intoString]

theorem IsNumber.into {literal : List Byte → Option F} {n : F} {v : Json} (h : IsNumber literal n v)
    (old : F) : intoNumber literal old v = some n := by
  obtain ⟨l, rfl, hl⟩ := h
  rw [intoNumber, hl]

theorem IsSome.into {P : F → Json → Prop} {x : Option F} {v : Json} (h : IsSome P x v)
    {zero : F} {into : F → Json → Option F} (hP : ∀ x v, P x v → v ≠ .null ∧ into zero v = some x) :
    intoPointer zero into none v = some x := by
  obtain ⟨y, rfl, hy⟩ := h
  obtain ⟨hne, hv⟩ := hP y v hy
  rw [intoPointer.eq_2 _ _ _ _ hne, Option.getD_none, hv, Option.map_some]

theorem intoItems_of_forall₂ {P : F → Json → Prop} {xs : List F} {vs : List Json}
    (h : List.Forall₂ P xs vs) {zero : F} {into : F → Json → Option F}
    (hP : ∀ x v, P x v → into zero v = some x) : intoItems zero into [] vs = some xs := by
  induction h with
  | nil => rfl
  | cons hx _ ih =>
    rw [intoItems, List.headD_nil, hP _ _ hx, List.tail_nil, ih]
    rfl

theorem IsArray.into {P : F → Json → Prop} {xs : Slice F} {v : Json} (h : IsArray P xs v) {zero : F}
    {into : F → Json → Option F} (hP : ∀ x v, P x v → into zero v = some x) :
    intoSlice zero into .empty v = some xs := by
  obtain ⟨items, behind⟩ := xs
  obtain ⟨rfl, vs, rfl, hvs⟩ := h
  cases hvs with
  | nil => rfl
  | cons hx hxs =>
    have hitems := intoItems_of_forall₂ (.cons hx hxs) hP
    rw [intoSlice, Slice.empty, List.append_nil, hitems, Option.map_some, List.drop_nil]
    exact fun heq => List.cons_ne_nil _ _ heq

/-- Every text of a value is decoded as that value. -/
theorem unmarshal_of_text {zero x : S} {into : S → Json → Option S} {v : Json} {t w : List Byte}
    (ht : Json.Text maxNestingDepth v t) (hw : Json.Blank w) (hv : into zero v = some x) :
    unmarshal zero into (t ++ w) = some x := by
  rw [unmarshal, Json.document_of_text ht hw, Option.bind_some, hv]

end Lib
