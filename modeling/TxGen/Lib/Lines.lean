import Mathlib.Data.List.Basic

/-!
# Lines of a stream

A scanner reads a stream and cuts it at the delimiter `lf`. It keeps the unfinished
line in a buffer with `limit` places, and stops for good when that is full before the
delimiter has come. At the end of the stream an unfinished line counts when it is not
empty.

The lines of a stream do not depend on the chunks it comes in (`feedAll_eq`), and a
stream made of short lines is cut into just these (`feed_lines`).
-/

namespace Lib

/-- The lines cut off so far, the unfinished one, and whether it was too long. -/
structure Scanner (α : Type*) where
  lines : List (List α)
  rest : List α
  tooLong : Bool

namespace Scanner

variable {α : Type*}

/-- Before the first element. -/
def start : Scanner α := ⟨[], [], false⟩

/-- The lines of the whole stream. -/
def close (s : Scanner α) : List (List α) :=
  if s.tooLong = true ∨ s.rest = [] then s.lines else s.lines ++ [s.rest]

variable [DecidableEq α] (lf : α) (limit : ℕ)

/-- One element. -/
def read (s : Scanner α) (a : α) : Scanner α :=
  if s.tooLong then s
  else if a = lf then { s with lines := s.lines ++ [s.rest], rest := [] }
  else if limit ≤ s.rest.length + 1 then { s with tooLong := true }
  else { s with rest := s.rest ++ [a] }

/-- A part of the stream. -/
def feed (s : Scanner α) (l : List α) : Scanner α := l.foldl (read lf limit) s

/-- The stream in chunks. -/
def feedAll (s : Scanner α) (chunks : List (List α)) : Scanner α :=
  chunks.foldl (feed lf limit) s

variable {lf limit} {s : Scanner α}

theorem feed_append (l m : List α) :
    s.feed lf limit (l ++ m) = (s.feed lf limit l).feed lf limit m := List.foldl_append

theorem feedAll_eq (chunks : List (List α)) :
    s.feedAll lf limit chunks = s.feed lf limit chunks.flatten := List.foldl_flatten.symm

theorem feed_of_tooLong (h : s.tooLong = true) (l : List α) : s.feed lf limit l = s := by
  induction l with
  | nil => rfl
  | cons a l ih =>
    have hread : s.read lf limit a = s := by rw [read, if_pos h]
    rw [feed, List.foldl_cons, hread]
    exact ih

/-- Elements other than the delimiter that fit extend the unfinished line. -/
theorem feed_open {l : List α} (h : s.tooLong = false) (hl : lf ∉ l)
    (hfit : s.rest.length + l.length < limit) :
    s.feed lf limit l = { s with rest := s.rest ++ l } := by
  induction l generalizing s with
  | nil => simp [feed]
  | cons a l ih =>
    have ha : a ≠ lf := fun ha => hl (by simp [ha])
    have hrest : lf ∉ l := fun hmem => hl (List.mem_cons_of_mem _ hmem)
    rw [List.length_cons] at hfit
    have hread : s.read lf limit a = { s with rest := s.rest ++ [a] } := by
      rw [read, if_neg (by simp [h]), if_neg ha, if_neg (by omega)]
    rw [feed, List.foldl_cons, hread]
    have := ih (s := { s with rest := s.rest ++ [a] }) h hrest
      (by rw [List.length_append, List.length_singleton]; omega)
    rw [feed] at this
    rw [this, List.append_assoc, List.singleton_append]

/-- When they do not fit, the scanner stops with the lines it has. -/
theorem feed_overflow {l : List α} (h : s.tooLong = false) (hl : lf ∉ l)
    (hs : s.rest.length < limit) (hfull : limit ≤ s.rest.length + l.length) :
    (s.feed lf limit l).tooLong = true ∧ (s.feed lf limit l).lines = s.lines := by
  induction l generalizing s with
  | nil => rw [List.length_nil] at hfull; omega
  | cons a l ih =>
    have ha : a ≠ lf := fun ha => hl (by simp [ha])
    have hrest : lf ∉ l := fun hmem => hl (List.mem_cons_of_mem _ hmem)
    rw [List.length_cons] at hfull
    rw [feed, List.foldl_cons, ← feed, read, if_neg (by simp [h]), if_neg ha]
    by_cases hstop : limit ≤ s.rest.length + 1
    · rw [if_pos hstop, feed_of_tooLong rfl]
      exact ⟨rfl, rfl⟩
    · rw [if_neg hstop]
      refine ih h hrest ?_ ?_ <;> rw [List.length_append, List.length_singleton] <;> omega

theorem feed_line (ls : List (List α)) {l : List α} (hl : lf ∉ l) (hfit : l.length < limit) :
    feed lf limit ⟨ls, [], false⟩ (l ++ [lf]) = ⟨ls ++ [l], [], false⟩ := by
  rw [feed_append, feed_open rfl hl (by rw [List.length_nil]; omega), feed, List.foldl_cons,
    List.foldl_nil, read, if_neg (by simp), if_pos rfl, List.nil_append]

/-- **Short lines are cut apart again.** -/
theorem feed_lines (pre : List (List α)) {ls : List (List α)}
    (hls : ∀ l ∈ ls, lf ∉ l ∧ l.length < limit) :
    feed lf limit ⟨pre, [], false⟩ (ls.flatMap (· ++ [lf])) = ⟨pre ++ ls, [], false⟩ := by
  induction ls generalizing pre with
  | nil => simp [feed]
  | cons l ls ih =>
    have hl := hls l List.mem_cons_self
    rw [List.flatMap_cons, feed_append, feed_line pre hl.1 hl.2,
      ih (pre ++ [l]) fun m hm => hls m (List.mem_cons_of_mem _ hm), List.append_assoc,
      List.singleton_append]

end Scanner

end Lib
