import Mathlib.Data.List.DropRight
import TxGen.Lib.Code

/-!
# Trimmed and fixed-width text

`trim p` strips the elements in `p` from both ends of a list. `pack` encodes as many
elements of a list as fit into a number of places, and `pad` fills the places left.
Two texts have the same field exactly when, after what they share, every element but the
blank ends beyond it (`pad_pack_eq_iff`).
-/

namespace Lib

variable {α β : Type*}

/-! ## Trimming -/

/-- `l` without the elements in `p` at its ends. -/
def trim (p : α → Bool) (l : List α) : List α := (l.dropWhile p).rdropWhile p

section Trim

variable {p q : α → Bool} {l : List α}

theorem rdropWhile_append_of_all {m : List α} (hm : ∀ a ∈ m, p a = true) :
    (l ++ m).rdropWhile p = l.rdropWhile p := by
  unfold List.rdropWhile
  rw [List.reverse_append, List.dropWhile_append_of_pos fun a ha => hm a (List.mem_reverse.1 ha)]

theorem head_dropWhile {a : α} (h : (l.dropWhile p).head? = some a) : p a = false := by
  have hnot := List.head?_dropWhile_not p l
  rw [h] at hnot
  simpa using hnot

/-- What is left of a trimmed list begins with an element outside `p`. -/
theorem head_trim {a : α} (h : (trim p l).head? = some a) : p a = false := by
  obtain ⟨m, hm⟩ := List.rdropWhile_prefix p (l.dropWhile p)
  apply head_dropWhile (l := l)
  rw [← hm, List.head?_append_of_ne_nil]
  · exact h
  · intro h0
    unfold trim at h
    rw [h0] at h
    cases h

theorem getLast_trim {a : α} (h : (trim p l).getLast? = some a) : p a = false := by
  have hne : (l.dropWhile p).rdropWhile p ≠ [] := by
    intro h0
    unfold trim at h
    rw [h0] at h
    cases h
  have hlast := List.rdropWhile_last_not p (l.dropWhile p) hne
  rw [trim, List.getLast?_eq_getLast_of_ne_nil hne, Option.some.injEq] at h
  rw [h] at hlast
  simpa using hlast

theorem rdropWhile_of_last {a : α} (h : l.getLast? = some a) (ha : p a = false) :
    l.rdropWhile p = l := by
  rw [List.rdropWhile_eq_self_iff]
  intro hl
  rw [List.getLast?_eq_getLast_of_ne_nil hl, Option.some.injEq] at h
  simp [h, ha]

theorem trim_of_head {a : α} (h : l.head? = some a) (ha : p a = false) :
    trim p l = l.rdropWhile p := by
  obtain ⟨m, rfl⟩ := List.head?_eq_some_iff.1 h
  rw [trim, List.dropWhile_cons, ha]
  rfl

/-- An element outside `p` at the front of a list stays there. -/
theorem head_trim_of_not {a : α} (h : l.head? = some a) (ha : p a = false) :
    (trim p l).head? = some a := by
  rw [trim_of_head h ha]
  have hne : l.rdropWhile p ≠ [] := by
    rw [ne_eq, List.rdropWhile_eq_nil_iff]
    intro hall
    rw [hall a (List.mem_of_head? h)] at ha
    cases ha
  obtain ⟨m, hm⟩ := List.rdropWhile_prefix p l
  rw [← hm, List.head?_append_of_ne_nil _ hne] at h
  exact h

/-- Elements in `p` around a list are stripped with those at its ends. -/
theorem trim_append_of_all {m n : List α} (hm : ∀ a ∈ m, p a = true) (hn : ∀ a ∈ n, p a = true)
    (l : List α) : trim p (m ++ (l ++ n)) = trim p l := by
  unfold trim
  rw [List.dropWhile_append_of_pos hm, List.dropWhile_append]
  split_ifs with h0
  · rw [List.isEmpty_iff.1 h0, List.dropWhile_eq_nil_iff.2 hn]
  · exact rdropWhile_append_of_all hn

theorem exists_trim_append (p : α → Bool) (l : List α) :
    ∃ m n, (∀ a ∈ m, p a = true) ∧ (∀ a ∈ n, p a = true) ∧ l = m ++ (trim p l ++ n) := by
  refine ⟨l.takeWhile p, (l.dropWhile p).rtakeWhile p, fun a => List.mem_takeWhile_imp,
    fun a => List.mem_rtakeWhile_imp, ?_⟩
  rw [trim, List.rdropWhile_append_rtakeWhile, List.takeWhile_append_dropWhile]

/-- What is stripped from a list may be stripped in two steps. -/
theorem trim_trim_of_imp (h : ∀ a, q a = true → p a = true) (l : List α) :
    trim p (trim q l) = trim p l := by
  obtain ⟨m, n, hm, hn, hl⟩ := exists_trim_append q l
  conv_rhs => rw [hl]
  exact (trim_append_of_all (fun a ha => h a (hm a ha)) (fun a ha => h a (hn a ha)) _).symm

/-- An element outside `p` stops the stripping from the right. -/
theorem rdropWhile_append_cons {a : α} (ha : p a = false) (l m : List α) :
    (l ++ a :: m).rdropWhile p = l ++ a :: m.rdropWhile p := by
  induction m using List.reverseRecOn with
  | nil =>
    rw [List.rdropWhile_concat_neg _ _ _ (by simp [ha])]
    rfl
  | append_singleton m b ih =>
    cases hb : p b with
    | true =>
      rw [← List.cons_append, ← List.append_assoc, List.rdropWhile_concat_pos _ _ _ hb,
        List.rdropWhile_concat_pos _ _ _ hb, ih]
    | false =>
      rw [← List.cons_append, ← List.append_assoc, List.rdropWhile_concat_neg _ _ _ (by simp [hb]),
        List.rdropWhile_concat_neg _ _ _ (by simp [hb])]
      simp

/-- There is nothing to strip. -/
theorem trim_eq_self (h : ∀ a ∈ l, p a = false) : trim p l = l := by
  have hdrop : l.dropWhile p = l := by
    cases l with
    | nil => rfl
    | cons a l => rw [List.dropWhile_cons_of_neg (by simp [h a List.mem_cons_self])]
  rw [trim, hdrop, List.rdropWhile_eq_self_iff]
  intro hne
  simp [h _ (List.getLast_mem hne)]

theorem dropWhile_congr (h : ∀ a ∈ l, p a = q a) : l.dropWhile p = l.dropWhile q := by
  induction l with
  | nil => rfl
  | cons a l ih =>
    rw [List.dropWhile_cons, List.dropWhile_cons, h a List.mem_cons_self,
      ih fun b hb => h b (List.mem_cons_of_mem a hb)]

/-- Only what `p` says of the elements counts. -/
theorem trim_congr (h : ∀ a ∈ l, p a = q a) : trim p l = trim q l := by
  rw [trim, trim, ← dropWhile_congr h, List.rdropWhile, List.rdropWhile]
  congr 1
  refine dropWhile_congr fun a ha => h a ?_
  exact (List.dropWhile_sublist p).subset (List.mem_reverse.1 ha)

theorem trim_map (f : β → α) (l : List β) : trim p (l.map f) = (trim (p ∘ f) l).map f := by
  rw [trim, trim, List.dropWhile_map, List.rdropWhile, List.rdropWhile, ← List.map_reverse,
    List.dropWhile_map, List.map_reverse]

end Trim

/-! ## Fields of a fixed width -/

/-- The number of places the elements of `l` take. -/
def width (enc : α → List β) (l : List α) : ℕ := (l.flatMap enc).length

/-- The elements of `l` encoded one after the other, as long as they fit into `room`
places. -/
def pack (enc : α → List β) : ℕ → List α → List β
  | _, [] => []
  | room, a :: l =>
    if (enc a).length ≤ room then enc a ++ pack enc (room - (enc a).length) l else []

/-- The elements that fit. -/
def fit (enc : α → List β) : ℕ → List α → List α
  | _, [] => []
  | room, a :: l =>
    if (enc a).length ≤ room then a :: fit enc (room - (enc a).length) l else []

/-- `l` filled up with `b` to `room` places. -/
def pad (b : β) (room : ℕ) (l : List β) : List β := l ++ List.replicate (room - l.length) b

section Pack

variable {enc : α → List β} {b : β}

@[simp] theorem width_nil : width enc [] = 0 := rfl

@[simp] theorem width_cons (a : α) (l : List α) :
    width enc (a :: l) = (enc a).length + width enc l := by
  rw [width, List.flatMap_cons, List.length_append, width]

theorem pack_zero (henc : ∀ a, enc a ≠ []) (l : List α) : pack enc 0 l = [] := by
  cases l with
  | nil => rfl
  | cons a l =>
    rw [pack, if_neg]
    have := List.length_pos_of_ne_nil (henc a)
    omega

theorem length_pack_le (room : ℕ) (l : List α) : (pack enc room l).length ≤ room := by
  induction l generalizing room with
  | nil => exact Nat.zero_le _
  | cons a l ih =>
    rw [pack]
    split_ifs with h
    · have := ih (room - (enc a).length)
      rw [List.length_append]
      omega
    · exact Nat.zero_le _

theorem length_pad_pack (room : ℕ) (l : List α) : (pad b room (pack enc room l)).length = room := by
  have h : (pack enc room l).length ≤ room := length_pack_le room l
  rw [pad, List.length_append, List.length_replicate]
  omega

theorem pad_append (m l : List β) (room : ℕ) :
    pad b (m.length + room) (m ++ l) = m ++ pad b room l := by
  rw [pad, pad, List.append_assoc, List.length_append, Nat.add_sub_add_left]

/-- A field begins with the first element of its text, if that fits. -/
theorem pad_pack_cons {a : α} {room : ℕ} (ha : (enc a).length ≤ room) (l : List α) :
    pad b room (pack enc room (a :: l)) =
      enc a ++ pad b (room - (enc a).length) (pack enc (room - (enc a).length) l) := by
  rw [pack, if_pos ha, ← pad_append, Nat.add_sub_cancel' ha]

/-- When the first element does not fit, the field is blank. -/
theorem pad_pack_of_head {room : ℕ} {l : List α}
    (h : ∀ a, l.head? = some a → ¬(enc a).length ≤ room) :
    pad b room (pack enc room l) = List.replicate room b := by
  cases l with
  | nil => simp [pack, pad]
  | cons a l => simp [pack, pad, h a rfl]

/-- A field that begins with an element that fits determines the element. -/
theorem head_eq_of_pad_pack_eq (hd : SelfDelimiting enc) {room : ℕ} {x y : α} {l m : List α}
    (hx : (enc x).length ≤ room) (hy : (enc y).length ≤ room)
    (h : pad b room (pack enc room (x :: l)) = pad b room (pack enc room (y :: m))) : x = y := by
  rw [pad_pack_cons hx, pad_pack_cons hy] at h
  exact (hd x y _ _ h).1

theorem pack_eq_flatMap_fit (room : ℕ) (l : List α) :
    pack enc room l = (fit enc room l).flatMap enc := by
  induction l generalizing room with
  | nil => rfl
  | cons a l ih =>
    rw [pack, fit]
    split_ifs
    · rw [ih, List.flatMap_cons]
    · rfl

theorem fit_prefix (room : ℕ) (l : List α) : fit enc room l <+: l := by
  induction l generalizing room with
  | nil => exact List.prefix_refl _
  | cons a l ih =>
    rw [fit]
    split_ifs
    · exact List.cons_prefix_cons.2 ⟨rfl, ih _⟩
    · exact List.nil_prefix

theorem width_fit_le (room : ℕ) (l : List α) : width enc (fit enc room l) ≤ room := by
  rw [width, ← pack_eq_flatMap_fit]
  exact length_pack_le room l

/-- No longer beginning of the text fits. -/
theorem length_le_length_fit {l : List α} {room j : ℕ} (hj : j ≤ l.length)
    (hfit : width enc (l.take j) ≤ room) : j ≤ (fit enc room l).length := by
  induction l generalizing room j with
  | nil => exact hj
  | cons a l ih =>
    cases j with
    | zero => exact Nat.zero_le _
    | succ j =>
      rw [List.take_succ_cons, width_cons] at hfit
      rw [List.length_cons, Nat.add_le_add_iff_right] at hj
      rw [fit, if_pos (by omega), List.length_cons]
      exact Nat.succ_le_succ (ih hj (by omega))

/-- The places left are as many blanks. -/
theorem pad_pack_eq {blank : α} (hb : enc blank = [b]) (room : ℕ) (l : List α) :
    pad b room (pack enc room l) = (fit enc room l ++
      List.replicate (room - width enc (fit enc room l)) blank).flatMap enc := by
  have hblank : ∀ n, (List.replicate n blank).flatMap enc = List.replicate n b := by
    intro n
    induction n with
    | zero => rfl
    | succ n ih => rw [List.replicate_succ, List.flatMap_cons, hb, ih, List.replicate_succ]; rfl
  rw [pad, pack_eq_flatMap_fit, List.flatMap_append, hblank, width]

/-! ## Two texts in fields of the same width -/

/-- The number of places in which two lists agree from the front on. -/
def commonLength [DecidableEq α] : List α → List α → ℕ
  | a :: l, b :: m => if a = b then commonLength l m + 1 else 0
  | _, _ => 0

theorem commonLength_append [DecidableEq α] (l m : List α) : commonLength l (l ++ m) = l.length := by
  induction l with
  | nil => cases m <;> rfl
  | cons a l ih => rw [List.cons_append, commonLength, if_pos rfl, ih, List.length_cons]

theorem eq_of_length_le_commonLength [DecidableEq α] {l m : List α}
    (hl : l.length ≤ commonLength l m) (hm : m.length ≤ commonLength l m) : l = m := by
  fun_induction commonLength l m with
  | case1 l a m ih =>
    rw [List.length_cons, Nat.add_le_add_iff_right] at hl hm
    rw [ih hl hm]
  | case2 => cases hl
  | case3 l m => rw [List.length_eq_zero_iff.1 (Nat.le_zero.1 hl),
      List.length_eq_zero_iff.1 (Nat.le_zero.1 hm)]

/-- Every element of `l` from place `n` on, but the blank, ends beyond the field. -/
def Beyond (enc : α → List β) (blank : α) (room : ℕ) (l : List α) (n : ℕ) : Prop :=
  ∀ i x, n ≤ i → l[i]? = some x → x ≠ blank → room < width enc (l.take (i + 1))

/-- The first element of a text may be left out with its places. -/
theorem beyond_cons {blank a : α} {room n : ℕ} {l : List α} (ha : (enc a).length ≤ room) :
    Beyond enc blank room (a :: l) (n + 1) ↔ Beyond enc blank (room - (enc a).length) l n := by
  constructor
  · intro h i x hi hx hne
    have := h (i + 1) x (by omega) hx hne
    rw [List.take_succ_cons, width_cons] at this
    omega
  · intro h i x hi hx hne
    obtain ⟨j, rfl⟩ : ∃ j, i = j + 1 := ⟨i - 1, by omega⟩
    have := h j x (by omega) hx hne
    rw [List.take_succ_cons, width_cons]
    omega

theorem beyond_cons_of_not_fits {blank a : α} {room n : ℕ} {l : List α}
    (ha : room < (enc a).length) : Beyond enc blank room (a :: l) n := by
  intro i x _ _ _
  rw [List.take_succ_cons, width_cons]
  omega

/-- A blank does not count. -/
theorem beyond_blank {blank : α} {room : ℕ} {l : List α} :
    Beyond enc blank room (blank :: l) 0 ↔ Beyond enc blank room (blank :: l) 1 := by
  refine ⟨fun h i x _ => h i x (Nat.zero_le i), fun h i x _ hx hne => h i x ?_ hx hne⟩
  cases i with
  | zero => exact absurd (Option.some.inj hx).symm hne
  | succ i => exact Nat.succ_pos i

/-- A field looks empty when every element of the text but the blank is beyond it. -/
theorem beyond_zero_iff (hd : SelfDelimiting enc) {blank : α} (hb : enc blank = [b]) (room : ℕ)
    (l : List α) :
    Beyond enc blank room l 0 ↔ pad b room (pack enc room l) = List.replicate room b := by
  induction l generalizing room with
  | nil => exact iff_of_true (fun i x _ hx => by cases hx) (pad_pack_of_head fun a ha => by cases ha)
  | cons a l ih =>
    by_cases ha : (enc a).length ≤ room
    · by_cases hab : a = blank
      · -- the blank fills one place, and the rest of the text is in the rest of the field
        subst hab
        have hlen : (enc a).length = 1 := by rw [hb]; rfl
        rw [beyond_blank, beyond_cons ha, ih, pad_pack_cons ha, hb, List.length_singleton]
        obtain ⟨n, rfl⟩ := Nat.exists_eq_add_of_le' (hlen.ge.trans ha)
        rw [Nat.add_sub_cancel, List.replicate_succ, List.singleton_append, List.cons_inj_right]
      · refine iff_of_false (fun h => ?_) fun h => ?_
        · have := h 0 a le_rfl rfl hab
          rw [List.take_succ_cons, List.take_zero, width_cons, width_nil] at this
          omega
        · -- the first element of a text that looks empty is the blank
          rw [pad_pack_cons ha] at h
          cases room with
          | zero =>
            have hnil : enc a = [] := List.eq_nil_of_length_eq_zero (Nat.le_zero.1 ha)
            exact hab (hd a blank (enc blank) [] (by rw [hnil, List.append_nil]; rfl)).1
          | succ room =>
            rw [List.replicate_succ, ← List.singleton_append, ← hb] at h
            exact hab (hd a blank _ _ h).1
    · refine iff_of_true (beyond_cons_of_not_fits (not_le.1 ha)) (pad_pack_of_head fun x hx => ?_)
      rwa [← Option.some.inj hx]

/-- Fields of texts that begin differently are the same only when both are blank. -/
theorem pad_pack_eq_of_head_ne (hd : SelfDelimiting enc) {room : ℕ} {l m : List α}
    (hne : ∀ a, l.head? = some a → m.head? ≠ some a) :
    pad b room (pack enc room l) = pad b room (pack enc room m) ↔
      pad b room (pack enc room l) = List.replicate room b ∧
        pad b room (pack enc room m) = List.replicate room b := by
  refine ⟨fun heq => ?_, fun h => h.1.trans h.2.symm⟩
  by_cases hl : ∀ a, l.head? = some a → ¬(enc a).length ≤ room
  · have hblank := pad_pack_of_head (b := b) hl
    exact ⟨hblank, heq.symm.trans hblank⟩
  by_cases hm : ∀ a, m.head? = some a → ¬(enc a).length ≤ room
  · have hblank := pad_pack_of_head (b := b) hm
    exact ⟨heq.trans hblank, hblank⟩
  -- otherwise both begin with an element that fits
  push Not at hl hm
  obtain ⟨x, hx, hxfit⟩ := hl
  obtain ⟨y, hy, hyfit⟩ := hm
  obtain ⟨l, rfl⟩ := List.head?_eq_some_iff.1 hx
  obtain ⟨m, rfl⟩ := List.head?_eq_some_iff.1 hy
  obtain rfl := head_eq_of_pad_pack_eq hd hxfit hyfit heq
  exact absurd rfl (hne x rfl)

/-- **Two texts have the same field** exactly when, where they are not the same any more,
both go on with blanks and elements beyond the field. -/
theorem pad_pack_eq_iff [DecidableEq α] (hd : SelfDelimiting enc) {blank : α}
    (hb : enc blank = [b]) (room : ℕ) (l m : List α) :
    pad b room (pack enc room l) = pad b room (pack enc room m) ↔
      Beyond enc blank room l (commonLength l m) ∧ Beyond enc blank room m (commonLength l m) := by
  fun_induction commonLength l m generalizing room with
  | case1 l a m ih =>
    by_cases ha : (enc a).length ≤ room
    · rw [pad_pack_cons ha, pad_pack_cons ha, List.append_right_inj, ih, beyond_cons ha,
        beyond_cons ha]
    · refine iff_of_true (by rw [pack, pack, if_neg ha, if_neg ha]) ?_
      exact ⟨beyond_cons_of_not_fits (not_le.1 ha), beyond_cons_of_not_fits (not_le.1 ha)⟩
  | case2 a l c m hac =>
    rw [beyond_zero_iff hd hb, beyond_zero_iff hd hb]
    exact pad_pack_eq_of_head_ne hd fun x hx hy =>
      hac ((Option.some.inj hx).trans (Option.some.inj hy).symm)
  | case3 l m hcons =>
    rw [beyond_zero_iff hd hb, beyond_zero_iff hd hb]
    refine pad_pack_eq_of_head_ne hd fun x hx hy => ?_
    obtain ⟨l, rfl⟩ := List.head?_eq_some_iff.1 hx
    obtain ⟨m, rfl⟩ := List.head?_eq_some_iff.1 hy
    exact hcons _ _ _ _ rfl rfl

/-- One text continues the other. -/
theorem pad_pack_append_eq_iff [DecidableEq α] (hd : SelfDelimiting enc) {blank : α}
    (hb : enc blank = [b]) (room : ℕ) (l m : List α) :
    pad b room (pack enc room l) = pad b room (pack enc room (l ++ m)) ↔
      Beyond enc blank room (l ++ m) l.length := by
  rw [pad_pack_eq_iff hd hb, commonLength_append, and_iff_right]
  intro i x hi hx
  have := (List.getElem?_eq_some_iff.1 hx).1
  omega

end Pack

end Lib
