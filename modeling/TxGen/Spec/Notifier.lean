import TxGen.Lib.Bucket
import TxGen.Lib.Machine
import TxGen.Spec.Store

/-!
# Reports to Slack, once in a while

`shouldSend` of `internal/notifier`: a message is sent unless one with the same key was
sent within the last five minutes. Times are in nanoseconds. The method holds a mutex
from its first line on and reads the clock under it, so calls are taken one after the
other.
-/

namespace TxGen.Notifier

open Lib

/-- `dedupeWindow`. -/
def dedupeWindow : ℤ := 5 * 60 * 10 ^ 9

/-- `now.Sub(t)`, which stops at the ends of `time.Duration`. -/
def sub (now t : ℤ) : ℤ := max (-2 ^ 63) (min (2 ^ 63 - 1) (now - t))

/-- The keys sent, and when. -/
abbrev Last := Bucket Bytes ℤ

/-- An order in which `range` goes over a map. The language leaves it open, and it may be
another one every time. -/
structure RangeOrder where
  visit : Last → List (Bytes × ℤ)
  perm : ∀ last, (visit last).Perm last.entries

/-- The loop of `shouldSend` over the map, which deletes the key it is at when that is too
old. -/
def prune (order : RangeOrder) (now : ℤ) (last : Last) : Last :=
  (order.visit last).foldl
    (fun last e => if sub now e.2 ≥ dedupeWindow then last.delete e.1 else last) last

/-- `shouldSend`, at the time `now`. -/
def shouldSend (order : RangeOrder) (now : ℤ) (key : Bytes) (last : Last) : Bool × Last :=
  if (last.get key).any fun t => sub now t < dedupeWindow then (false, last)
  else (true, prune order now (last.put key now))

/-- `strconv.Itoa`. -/
def itoa (n : ℤ) : Bytes := if n < 0 then 45 :: appendUint n.natAbs else appendUint n.natAbs

/-- The key `ReportReorg` calls it with: `"reorg-"` and the height. -/
def reorgKey (height : ℤ) : Bytes := [114, 101, 111, 114, 103, 45] ++ itoa height

/-! ## Sequences of calls -/

/-- A call of `shouldSend`. -/
structure Call where
  key : Bytes
  now : ℤ
  order : RangeOrder

/-- A notifier with the keys and times of the calls that returned true, the latest
first. -/
structure History where
  last : Last
  accepted : List (Bytes × ℤ)

/-- A new notifier. -/
def History.start : History := ⟨Bucket.empty, []⟩

def History.step (h : History) (c : Call) : History :=
  let sent := shouldSend c.order c.now c.key h.last
  ⟨sent.2, if sent.1 then (c.key, c.now) :: h.accepted else h.accepted⟩

end TxGen.Notifier
