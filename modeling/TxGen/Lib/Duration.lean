import TxGen.Lib.Binary64
import TxGen.Lib.Json

/-!
# Durations

Texts of durations such as `1h30m` or `1.5s`: numbers with a unit, one after the other,
perhaps after a sign. The result is in nanoseconds. The part of a number behind its point
is scaled in doubles.
-/

namespace Lib.Duration

open Utf8 Json

def point : ℕ := 0x2e

/-- The nanoseconds of a unit. A microsecond is written with a `u` or with one of the two
characters that look like a mu. -/
def unitOf (u : List Byte) : Option ℕ :=
  match u.map Fin.val with
  | [0x6e, 0x73] => some 1
  | [0x75, 0x73] | [0xc2, 0xb5, 0x73] | [0xce, 0xbc, 0x73] => some (10 ^ 3)
  | [0x6d, 0x73] => some (10 ^ 6)
  | [0x73] => some (10 ^ 9)
  | [0x6d] => some (60 * 10 ^ 9)
  | [0x68] => some (3600 * 10 ^ 9)
  | _ => none

/-- The digits at the front of a text, after those that make `x`, and the rest. There is
none when the number does not fit. -/
def leadingInt : ℕ → List Byte → Option (ℕ × List Byte)
  | x, [] => some (x, [])
  | x, b :: s =>
    if isDigit b then
      if x > 2 ^ 63 / 10 then none
      else
        let y := x * 10 + (b.val - 0x30)
        if y > 2 ^ 63 then none else leadingInt y s
    else some (x, b :: s)

/-- The digits behind a point, as far as they fit, how many they are, and the rest. -/
def leadingFraction : ℕ → ℕ → Bool → List Byte → ℕ × ℕ × List Byte
  | x, k, _, [] => (x, k, [])
  | x, k, overflow, b :: s =>
    if isDigit b then
      let y := x * 10 + (b.val - 0x30)
      if overflow ∨ x > (2 ^ 63 - 1) / 10 ∨ y > 2 ^ 63 then leadingFraction x k true s
      else leadingFraction y (k + 1) false s
    else (x, k, b :: s)

/-- What may begin a number. -/
def begins (b : Byte) : Bool := b.val = point || isDigit b

/-- The fraction of a unit that is `f` behind the point, in `k` digits. -/
def fraction (unit f k : ℕ) : ℕ :=
  ⌊Binary64.round (Binary64.round f * Binary64.round (unit / 10 ^ k))⌋.toNat

/-- The part of a number behind its point, if there is one: the digits, how many they are,
the rest, and whether there are any. -/
def afterPoint : List Byte → ℕ × ℕ × List Byte × Bool
  | [] => (0, 0, [], false)
  | b :: s =>
    if b.val = point then
      let x := leadingFraction 0 0 false s
      (x.1, x.2.1, x.2.2, x.2.2.length ≠ s.length)
    else (0, 0, b :: s, false)

/-- A number with its unit, in nanoseconds, and the rest. -/
def component (s : List Byte) : Option (ℕ × List Byte) :=
  if s.head?.any begins then
    (leadingInt 0 s).bind fun x =>
      let y := afterPoint x.2
      if x.2.length = s.length ∧ y.2.2.2 = false then none
      else
        (unitOf (y.2.2.1.takeWhile fun b => !begins b)).bind fun unit =>
          if x.1 > 2 ^ 63 / unit then none
          else
            let v := x.1 * unit + if y.1 > 0 then fraction unit y.1 y.2.1 else 0
            if v > 2 ^ 63 then none else some (v, y.2.2.1.dropWhile fun b => !begins b)
  else none

/-- The sum of numbers with units, from `d` on. Only the sum is looked at, and it may have
wrapped around. -/
def components : ℕ → ℕ → List Byte → Option ℕ
  | _, d, [] => some d
  | 0, _, _ :: _ => none
  | n + 1, d, b :: s =>
    (component (b :: s)).bind fun x =>
      let d := (d + x.1) % 2 ^ 64
      if d > 2 ^ 63 then none else components n d x.2

/-- A duration without its sign. -/
def magnitude (s : List Byte) : Option ℕ :=
  if s.map Fin.val = [0x30] then some 0 else if s = [] then none else components s.length 0 s

/-- A duration. -/
def parse (s : List Byte) : Option ℤ :=
  match s with
  | [] => none
  | b :: t =>
    if b.val = 0x2d then (magnitude t).map fun d : ℕ => -(d : ℤ)
    else
      (magnitude (if b.val = 0x2b then t else b :: t)).bind fun d : ℕ =>
        if d > 2 ^ 63 - 1 then none else some (d : ℤ)

/-- Durations fit into 63 bits and a sign. -/
theorem parse_lt {s : List Byte} {d : ℤ} (h : parse s = some d) : d < 2 ^ 63 := by
  rw [parse.eq_def] at h
  split at h
  · cases h
  · split_ifs at h
    · obtain ⟨n, -, rfl⟩ := Option.map_eq_some_iff.1 h
      omega
    · obtain ⟨n, -, hn⟩ := Option.bind_eq_some_iff.1 h
      split_ifs at hn
      cases hn
      omega
    · obtain ⟨n, -, hn⟩ := Option.bind_eq_some_iff.1 h
      split_ifs at hn
      cases hn
      omega

/-! ## One number with its unit -/

theorem le_foldl_digits (ds : List Byte) (x : ℕ) :
    x ≤ ds.foldl (fun n b => n * 10 + (b.val - 0x30)) x := by
  induction ds generalizing x with
  | nil => exact le_rfl
  | cons b ds ih =>
    have hle := ih (x * 10 + (b.val - 0x30))
    rw [List.foldl_cons]
    omega

theorem leadingInt_append {ds u : List Byte} (hds : ∀ b ∈ ds, isDigit b = true)
    (hu : u.head?.any begins = false) {x : ℕ}
    (hx : ds.foldl (fun n b => n * 10 + (b.val - 0x30)) x ≤ 2 ^ 63) :
    leadingInt x (ds ++ u) = some (ds.foldl (fun n b => n * 10 + (b.val - 0x30)) x, u) := by
  induction ds generalizing x with
  | nil =>
    cases u with
    | nil => rfl
    | cons b u =>
      have hb : isDigit b = false := by
        simp only [List.head?_cons, Option.any_some, begins, Bool.or_eq_false_iff] at hu
        exact hu.2
      rw [List.nil_append, leadingInt, hb]
      rfl
  | cons b ds ih =>
    have hle := le_foldl_digits ds (x * 10 + (b.val - 0x30))
    rw [List.foldl_cons] at hx
    rw [List.cons_append, leadingInt, hds b List.mem_cons_self, if_pos rfl, if_neg (by omega),
      if_neg (by omega), ih (fun b hb => hds b (List.mem_cons_of_mem _ hb)) hx, List.foldl_cons]

theorem afterPoint_of_not_begins {u : List Byte} (hu : u.head?.any begins = false) :
    afterPoint u = (0, 0, u, false) := by
  cases u with
  | nil => rfl
  | cons b u =>
    have hb : b.val ≠ point := by
      simp only [List.head?_cons, Option.any_some, begins, Bool.or_eq_false_iff,
        decide_eq_false_iff_not] at hu
      exact hu.1
    rw [afterPoint, if_neg hb]

section Single

variable {ds u : List Byte} {unit : ℕ} (hne : ds ≠ []) (hds : ∀ b ∈ ds, isDigit b = true)
  (hu : unitOf u = some unit) (hbegins : ∀ b ∈ u, begins b = false) (hunit : 0 < unit)
  (hfit : digitsValue ds * unit < 2 ^ 63)
include hne hds hu hbegins hunit hfit

theorem component_append : component (ds ++ u) = some (digitsValue ds * unit, []) := by
  have hhead : (ds ++ u).head?.any begins = true := by
    cases ds with
    | nil => exact absurd rfl hne
    | cons b ds => simp [begins, hds b List.mem_cons_self]
  have hrest : u.head?.any begins = false := by
    cases u with
    | nil => rfl
    | cons b u => exact hbegins b List.mem_cons_self
  have hvalue : digitsValue ds ≤ 2 ^ 63 / unit := (Nat.le_div_iff_mul_le hunit).2 hfit.le
  have hint : leadingInt 0 (ds ++ u) = some (digitsValue ds, u) :=
    leadingInt_append hds hrest (hvalue.trans (Nat.div_le_self _ _))
  have hlen : u.length ≠ (ds ++ u).length := by
    have := List.length_pos_iff.2 hne
    rw [List.length_append]
    omega
  have htake : u.takeWhile (fun b => !begins b) = u :=
    List.takeWhile_eq_self_iff.2 fun b hb => by simp [hbegins b hb]
  have hdrop : u.dropWhile (fun b => !begins b) = [] :=
    List.dropWhile_eq_nil_iff.2 fun b hb => by simp [hbegins b hb]
  rw [component, if_pos hhead, hint, Option.bind_some]
  simp only [afterPoint_of_not_begins hrest, hlen, false_and, if_false, htake, hdrop, hu,
    Option.bind_some, hvalue.not_gt, lt_self_iff_false, gt_iff_lt, Nat.add_zero, hfit.le.not_gt]

/-- **A number with a unit is that many of them.** -/
theorem parse_append : parse (ds ++ u) = some ((digitsValue ds * unit : ℕ) : ℤ) := by
  have hcomponent := component_append hne hds hu hbegins hunit hfit
  cases ds with
  | nil => exact absurd rfl hne
  | cons b ds =>
    have hb := hds b List.mem_cons_self
    have hminus : b.val ≠ 0x2d := by
      intro h
      rw [isDigit, h] at hb
      cases hb
    have hplus : b.val ≠ 0x2b := by
      intro h
      rw [isDigit, h] at hb
      cases hb
    have hzero : (b :: (ds ++ u)).map Fin.val ≠ [0x30] := by
      intro h
      have hnil : ds ++ u = [] := List.map_eq_nil_iff.1 (List.cons.inj h).2
      rw [(List.append_eq_nil_iff.1 hnil).2] at hu
      cases hu
    have hmag : magnitude (b :: (ds ++ u)) = some (digitsValue (b :: ds) * unit) := by
      rw [magnitude, if_neg hzero, if_neg (List.cons_ne_nil _ _), List.length_cons, components]
      rw [← List.cons_append, hcomponent, Option.bind_some, Nat.zero_add]
      rw [Nat.mod_eq_of_lt (hfit.trans (by decide)), if_neg hfit.le.not_gt, components]
    rw [List.cons_append, parse, if_neg hminus, if_neg hplus, hmag, Option.bind_some,
      if_neg (by omega)]

end Single

end Lib.Duration
