import TxGen.Spec.SSE
import Mathlib.Algebra.BigOperators.Group.List.Basic
import Mathlib.Data.List.DropRight

/-!
# What a stream delivers

A body that serializes a list of events, each of its lines shorter than the scanner's
buffer, calls the handler with just these events. A line of data that is itself shorter
than the buffer may not fit any more with its prefix, and its event is lost.

The buffer bounds a line and not an event: the event grows from line to line until a
blank one comes. It stays within `maxEventBytes` exactly when the data between any two
blank lines does.
-/

namespace TxGen.SSE

open Lib

/-! ## Single lines -/

theorem dropCR_concat (l : Bytes) : dropCR (l ++ [carriageReturn]) = l := by
  rw [dropCR, if_pos (by simp), List.dropLast_concat]

theorem dropCR_of_not_mem {l : Bytes} (h : carriageReturn ∉ l) : dropCR l = l := by
  rw [dropCR, if_neg fun hlast => h (List.mem_of_getLast? hlast)]

/-- A first byte other than CR stays the first. -/
theorem head_dropCR {l : Bytes} {b : Fin 256} (h : l.head? = some b) (hb : b ≠ carriageReturn) :
    (dropCR l).head? = some b := by
  obtain ⟨m, rfl⟩ := List.head?_eq_some_iff.1 h
  rw [dropCR]
  split_ifs with hlast
  · cases m with
    | nil =>
      rw [List.getLast?_singleton, Option.some.injEq] at hlast
      exact absurd hlast hb
    | cons c m => rfl
  · rfl

/-- A line that starts with another letter than `data:` changes nothing. -/
theorem Reader.line_of_head {r : Reader} {text : Bytes} {b : Fin 256} (h : text.head? = some b)
    (hb : b ≠ 100) : r.line text = r := by
  obtain ⟨m, rfl⟩ := List.head?_eq_some_iff.1 h
  have hpre : ¬ dataPrefix <+: b :: m := fun hp => hb (List.cons_prefix_cons.1 hp).1.symm
  rw [Reader.line, if_neg (List.cons_ne_nil _ _), cutPrefix, if_neg hpre]

theorem cutPrefix_append (pre s : Bytes) : cutPrefix pre (pre ++ s) = some s := by
  rw [cutPrefix, if_pos (List.prefix_append _ _), List.drop_left]

/-- The space before the data is taken off, and no other. -/
theorem trimPrefix_space {space : Bool} {text : Bytes} (h : text.head? = some 32 → space = true) :
    trimPrefix [32] ((if space then [32] else []) ++ text) = text := by
  cases space with
  | true => rw [if_pos rfl, trimPrefix, cutPrefix_append, Option.getD_some]
  | false =>
    have hpre : ¬ [32] <+: text := by
      rintro ⟨m, rfl⟩
      exact absurd (h rfl) (by decide)
    rw [if_neg (by decide), List.nil_append, trimPrefix, cutPrefix, if_neg hpre, Option.getD_none]

/-- No line holds an LF. -/
theorem Ended.lineFeed_not_mem {l : Ended} (h : l.line.Ok) : lineFeed ∉ l.bytes := by
  have hcr : lineFeed ∉ (if l.crlf then [carriageReturn] else []) := by
    split_ifs <;> decide
  rw [Ended.bytes, List.mem_append, not_or]
  refine ⟨?_, hcr⟩
  revert h
  cases l.line with
  | data space text =>
    intro h
    have hspace : lineFeed ∉ (if space then [32] else [] : Bytes) := by
      split_ifs <;> decide
    have hdata : lineFeed ∉ dataPrefix := by decide
    rw [Line.bytes, List.mem_append, List.mem_append]
    exact fun hmem => hmem.elim hdata fun hmem => hmem.elim hspace h.1
  | comment text =>
    intro h
    have hcolon : lineFeed ≠ 58 := by decide
    rw [Line.bytes, List.mem_cons]
    exact fun hmem => hmem.elim hcolon h
  | field f value =>
    intro h
    have hname : lineFeed ∉ f.name := by cases f <;> decide
    have hcolon : lineFeed ≠ 58 := by decide
    cases value with
    | none => exact hname
    | some text =>
      rw [Line.bytes, List.mem_append, List.mem_cons]
      exact fun hmem => hmem.elim hname fun hmem => hmem.elim hcolon (h text rfl)
  | blank => intro _; exact List.not_mem_nil

theorem Reader.line_data {space crlf : Bool} {text : Bytes} (h : (Line.data space text).Ok)
    (r : Reader) :
    r.line (dropCR (Ended.mk (.data space text) crlf).bytes) =
      { r with event := r.event ++ text ++ [lineFeed] } := by
  have hcr : carriageReturn ∉ (Line.data space text).bytes := by
    have hspace : carriageReturn ∉ (if space then [32] else [] : Bytes) := by
      split_ifs <;> decide
    have hdata : carriageReturn ∉ dataPrefix := by decide
    rw [Line.bytes, List.mem_append, List.mem_append]
    exact fun hmem => hmem.elim hdata fun hmem => hmem.elim hspace h.2.1
  have hdrop : dropCR (Ended.mk (.data space text) crlf).bytes = (Line.data space text).bytes := by
    rw [Ended.bytes]
    cases crlf with
    | true => exact dropCR_concat _
    | false =>
      rw [if_neg Bool.false_ne_true, List.append_nil]
      exact dropCR_of_not_mem hcr
  have hne : (Line.data space text).bytes ≠ [] := by simp [Line.bytes, dataPrefix]
  rw [hdrop, Reader.line, if_neg hne, Line.bytes, cutPrefix_append]
  simp only [trimPrefix_space h.2.2]

theorem Reader.line_idle {l : Ended} (h : l.line.Idle) (r : Reader) :
    r.line (dropCR l.bytes) = r := by
  have hhead : ∃ b, l.bytes.head? = some b ∧ b ≠ carriageReturn ∧ b ≠ 100 := by
    rw [Ended.bytes]
    revert h
    cases l.line with
    | data space text => intro h; exact h.elim
    | comment text => intro _; exact ⟨58, rfl, by decide, by decide⟩
    | field f value =>
      intro _
      cases f with
      | id => exact ⟨105, by cases value <;> rfl, by decide, by decide⟩
      | event => exact ⟨101, by cases value <;> rfl, by decide, by decide⟩
      | retry => exact ⟨114, by cases value <;> rfl, by decide, by decide⟩
    | blank => intro h; exact h.elim
  obtain ⟨b, hb, hcr, h100⟩ := hhead
  exact Reader.line_of_head (head_dropCR hb hcr) h100

theorem Reader.line_blank (crlf : Bool) (r : Reader) :
    r.line (dropCR (Ended.mk .blank crlf).bytes) = r.dispatch := by
  have hdrop : dropCR (Ended.mk .blank crlf).bytes = [] := by cases crlf <;> rfl
  rw [hdrop, Reader.line, if_pos rfl]

/-! ## Events -/

/-- What the lines of an event collect to. -/
def collected (texts : List Bytes) : Bytes := texts.flatMap (· ++ [lineFeed])

/-- Without its last newline, that is the lines joined. -/
theorem trimSuffix_collected {texts : List Bytes} (h : texts ≠ []) :
    trimSuffix [lineFeed] (collected texts) = joined texts := by
  have hjoin : ∀ ts : List Bytes, ts ≠ [] → collected ts = joined ts ++ [lineFeed] := by
    intro ts hts
    induction ts with
    | nil => exact absurd rfl hts
    | cons t ts ih =>
      cases ts with
      | nil => simp [collected, joined]
      | cons t' ts =>
        have := ih (List.cons_ne_nil _ _)
        rw [collected, List.flatMap_cons, ← collected, this, joined, joined,
          List.intercalate_cons_cons]
        simp
  rw [hjoin texts h, trimSuffix, if_pos (List.suffix_append _ _), List.length_append,
    Nat.add_sub_cancel, List.take_left]

theorem collected_ne_nil {texts : List Bytes} (h : texts ≠ []) : collected texts ≠ [] := by
  cases texts with
  | nil => exact absurd rfl h
  | cons t ts => simp [collected]

/-- The lines of a list as the scanner returns them. -/
def texts (ls : List Ended) : List Bytes := ls.map fun l => dropCR l.bytes

/-- The lines of one event add its data to what is collected. -/
theorem Block.read {data : List Bytes} {ls : List Ended} (h : Block data ls)
    (hok : ∀ l ∈ ls, l.line.Ok) (r : Reader) :
    (texts ls).foldl Reader.line r = { r with event := r.event ++ collected data } := by
  induction h generalizing r with
  | nil => simp [texts, collected]
  | data space crlf text _ ih =>
    have hhead := hok _ List.mem_cons_self
    rw [texts, List.map_cons, List.foldl_cons, Reader.line_data hhead, ← texts,
      ih fun l hl => hok l (List.mem_cons_of_mem _ hl)]
    simp [collected]
  | idle l hidle _ ih =>
    rw [texts, List.map_cons, List.foldl_cons, Reader.line_idle hidle, ← texts,
      ih fun l hl => hok l (List.mem_cons_of_mem _ hl)]

/-- An event that is complete is handed over. -/
theorem Reader.dispatch_collected {data : List Bytes} (h : data ≠ []) (handled : List Bytes) :
    Reader.dispatch ⟨collected data, handled⟩ = ⟨[], handled ++ [joined data]⟩ := by
  rw [Reader.dispatch, if_neg (collected_ne_nil h), trimSuffix_collected h]

/-- **A serialized list of events is handed over event by event.** -/
theorem Serializes.read {events : List (List Bytes)} {ls : List Ended} (h : Serializes events ls)
    (hok : ∀ l ∈ ls, l.line.Ok) (handled : List Bytes) :
    ((texts ls).foldl Reader.line ⟨[], handled⟩).dispatch.handled =
      handled ++ events.map joined := by
  induction h generalizing handled with
  | nil => simp [texts, Reader.dispatch]
  | @gap l events ls hgap _ ih =>
    have hline : Reader.line ⟨[], handled⟩ (dropCR l.bytes) = ⟨[], handled⟩ := by
      rcases hgap with hidle | hblank
      · exact Reader.line_idle hidle _
      · obtain ⟨line, crlf⟩ := l
        obtain rfl : line = .blank := hblank
        rw [Reader.line_blank, Reader.dispatch, if_pos rfl]
    rw [texts, List.map_cons, List.foldl_cons, hline, ← texts,
      ih fun l hl => hok l (List.mem_cons_of_mem _ hl)]
  | last hne hblock =>
    rw [hblock.read hok, List.nil_append, Reader.dispatch_collected hne]
    rfl
  | @event crlf data ls events rest hne hblock _ ih =>
    have hok' : ∀ l ∈ ls, l.line.Ok := fun l hl => hok l (List.mem_append_left _ hl)
    rw [texts, List.map_append, List.foldl_append, ← texts, hblock.read hok', List.nil_append,
      List.map_cons, List.foldl_cons, Reader.line_blank, Reader.dispatch_collected hne, ← texts,
      ih fun l hl => hok l (List.mem_append_right _ (List.mem_cons_of_mem _ hl)), List.map_cons,
      List.append_assoc, List.singleton_append]

/-! ## The whole stream -/

/-- A body of short lines is read line by line, in whatever chunks it comes. -/
theorem scanned_encode {ls : List Ended} (hok : ∀ l ∈ ls, l.line.Ok)
    (hshort : ∀ l ∈ ls, l.bytes.length < maxEventBytes) {chunks : List Bytes}
    (hchunks : chunks.flatten = encode ls) : scanned chunks = texts ls := by
  have henc : encode ls = (ls.map Ended.bytes).flatMap (· ++ [lineFeed]) := by
    rw [encode, List.flatMap_map]
  have hlines : ∀ l ∈ ls.map Ended.bytes, lineFeed ∉ l ∧ l.length < maxEventBytes := by
    intro b hb
    obtain ⟨l, hl, rfl⟩ := List.mem_map.1 hb
    exact ⟨Ended.lineFeed_not_mem (hok l hl), hshort l hl⟩
  rw [scanned, scan, Scanner.feedAll_eq, hchunks, henc, Scanner.start,
    Scanner.feed_lines [] hlines, List.nil_append, Scanner.close, if_pos (Or.inr rfl),
    List.map_map]
  rfl

/-- **Decoding inverts encoding**, for lines that fit into the scanner's buffer. -/
theorem connect_of_serializes {events : List (List Bytes)} {ls : List Ended}
    (hser : Serializes events ls) (hok : ∀ l ∈ ls, l.line.Ok)
    (hshort : ∀ l ∈ ls, l.bytes.length < maxEventBytes) {chunks : List Bytes}
    (hchunks : chunks.flatten = encode ls) : connect chunks = events.map joined := by
  rw [connect, scanned_encode hok hshort hchunks, readLines, Reader.start, hser.read hok,
    List.nil_append]

/-- Two events, the first of two lines with a comment between them, the second cut off
before its blank line. -/
def twoEvents : List Ended :=
  [⟨.data true [97], true⟩, ⟨.comment [98], false⟩, ⟨.data false [], false⟩, ⟨.blank, true⟩,
    ⟨.field .id none, false⟩, ⟨.data true [32, 99], false⟩]

theorem serializes_twoEvents : Serializes [[[97], []], [[32, 99]]] twoEvents :=
  .event true (List.cons_ne_nil _ _)
    (.data true true _ (.idle ⟨.comment [98], false⟩ trivial (.data false false _ .nil)))
    (.last (List.cons_ne_nil _ _) (.idle ⟨.field .id none, false⟩ trivial (.data true false _ .nil)))

/-- They are delivered, also when a chunk ends within a line. -/
theorem connect_twoEvents :
    connect [(encode twoEvents).take 4, (encode twoEvents).drop 4] = [[97, lineFeed], [32, 99]] :=
  connect_of_serializes serializes_twoEvents (by decide) (by decide +kernel) (by simp)

/-- A first line that does not fit into the buffer ends the scan before anything is read. -/
theorem connect_of_overlong {l : Ended} (hok : l.line.Ok) (hlong : maxEventBytes ≤ l.bytes.length)
    (ls : List Ended) : connect [encode (l :: ls)] = [] := by
  have hmax : 0 < maxEventBytes := Nat.two_pow_pos 20
  obtain ⟨hstop, hlines⟩ := Scanner.feed_overflow (s := Scanner.start) rfl
    (Ended.lineFeed_not_mem hok) hmax (hlong.trans (Nat.le_add_left _ _))
  have hscan : (scan [encode (l :: ls)]).close = [] := by
    rw [scan, Scanner.feedAll_eq, List.flatten_singleton, encode, List.flatMap_cons,
      List.append_assoc, Scanner.feed_append, Scanner.feed_of_tooLong hstop, Scanner.close,
      if_pos (Or.inl hstop), hlines]
    rfl
  rw [connect, scanned, hscan]
  rfl

/-- `n` letters. -/
def letters (n : ℕ) : Bytes := List.replicate n 97

/-- The line of data that holds them, and a blank line, both ended by LF. -/
def lettersLine (n : ℕ) : Ended := ⟨.data false (letters n), false⟩

def blankLine : Ended := ⟨.blank, false⟩

theorem length_letters (n : ℕ) : (letters n).length = n := List.length_replicate

theorem lettersLine_ok (n : ℕ) : (lettersLine n).line.Ok := by
  have hmem : ∀ b, b ≠ 97 → b ∉ letters n := fun b hb hmem => hb (List.eq_of_mem_replicate hmem)
  refine ⟨hmem _ (by decide), hmem _ (by decide), fun hhead => ?_⟩
  exact absurd (List.mem_of_head? hhead) (hmem 32 (by decide))

theorem length_lettersLine (n : ℕ) : (lettersLine n).bytes.length = n + 5 := by
  simp only [lettersLine, Ended.bytes, Line.bytes, dataPrefix, Bool.false_eq_true, if_false,
    List.append_nil, List.nil_append, List.length_append, List.length_cons, List.length_nil,
    length_letters]
  omega

theorem serializes_letters (n : ℕ) : Serializes [[letters n]] [lettersLine n, blankLine] :=
  .event false (List.cons_ne_nil _ _) (.data false false _ .nil) .nil

/-- **The prefix counts.** A line of data shorter than the buffer is lost when it does not
fit any more with the prefix before it. -/
theorem long_line_lost :
    (letters (maxEventBytes - 1)).length < maxEventBytes ∧
      Serializes [[letters (maxEventBytes - 1)]] [lettersLine (maxEventBytes - 1), blankLine] ∧
      (∀ l ∈ [lettersLine (maxEventBytes - 1), blankLine], l.line.Ok) ∧
      connect [encode [lettersLine (maxEventBytes - 1), blankLine]] = [] := by
  have hmax : 0 < maxEventBytes := Nat.two_pow_pos 20
  refine ⟨by rw [length_letters]; omega, serializes_letters _, ?_, ?_⟩
  · intro l hl
    rcases List.mem_cons.1 hl with rfl | hl
    · exact lettersLine_ok _
    · rw [List.mem_singleton.1 hl]
      trivial
  · exact connect_of_overlong (lettersLine_ok _) (by rw [length_lettersLine]; omega) _

/-! ## The size of an event -/

/-- What a line adds to the event. -/
def dataSize (text : Bytes) : ℕ :=
  match cutPrefix dataPrefix text with
  | some data => (trimPrefix [32] data).length + 1
  | none => 0

/-- The buffer of the event, and with it every payload, stays within `maxEventBytes`
while the body is read. -/
def Bounded (chunks : List Bytes) : Prop :=
  (∀ seen, seen <+: scanned chunks → (readLines seen).event.length ≤ maxEventBytes) ∧
    ∀ payload ∈ connect chunks, payload.length ≤ maxEventBytes

/-- The lines read between two blank ones bring at most `maxEventBytes` of data, with a
newline for each. -/
def ShortEvents (chunks : List Bytes) : Prop :=
  ∀ part, part <:+: scanned chunks → [] ∉ part → (part.map dataSize).sum ≤ maxEventBytes

/-- Lines that are not blank only add to the event. -/
theorem length_event_of_no_blank {part : List Bytes} (h : [] ∉ part) (r : Reader) :
    (part.foldl Reader.line r).event.length = r.event.length + (part.map dataSize).sum := by
  induction part generalizing r with
  | nil => simp
  | cons text part ih =>
    have hne : text ≠ [] := fun h0 => h (by rw [h0]; exact List.mem_cons_self)
    have hline : (r.line text).event.length = r.event.length + dataSize text := by
      rw [Reader.line, if_neg hne, dataSize]
      cases cutPrefix dataPrefix text with
      | some data => simp only [List.length_append, List.length_singleton, Nat.add_assoc]
      | none => rfl
    rw [List.foldl_cons, ih (fun hmem => h (List.mem_cons_of_mem _ hmem)), hline, List.map_cons,
      List.sum_cons, Nat.add_assoc]

theorem Reader.event_dispatch (r : Reader) : r.dispatch.event = [] := by
  rw [Reader.dispatch]
  split_ifs with h
  · exact h
  · rfl

/-- The event holds what came after the last blank line. -/
theorem exists_event_suffix (seen : List Bytes) :
    ∃ part, part <:+ seen ∧ [] ∉ part ∧
      (readLines seen).event.length = (part.map dataSize).sum := by
  induction seen using List.reverseRecOn with
  | nil => exact ⟨[], List.suffix_refl _, List.not_mem_nil, rfl⟩
  | append_singleton seen text ih =>
    have hread : readLines (seen ++ [text]) = (readLines seen).line text := by
      rw [readLines, List.foldl_append]
      rfl
    by_cases htext : text = []
    · refine ⟨[], List.nil_suffix, List.not_mem_nil, ?_⟩
      rw [hread, Reader.line, if_pos htext, Reader.event_dispatch]
      rfl
    · obtain ⟨part, ⟨pre, hpre⟩, hblank, hlen⟩ := ih
      refine ⟨part ++ [text], ⟨pre, by rw [← hpre, List.append_assoc]⟩, ?_, ?_⟩
      · rw [List.mem_append, List.mem_singleton, not_or]
        exact ⟨hblank, fun h0 => htext h0.symm⟩
      · have hone := length_event_of_no_blank
          (mt List.mem_singleton.1 (Ne.symm htext)) (readLines seen)
        rw [List.foldl_cons, List.foldl_nil] at hone
        rw [hread, hone, hlen, List.map_append, List.sum_append]

theorem length_trimSuffix_le (suf s : Bytes) : (trimSuffix suf s).length ≤ s.length := by
  rw [trimSuffix]
  split_ifs
  · rw [List.length_take]
    exact Nat.min_le_right _ _
  · exact Nat.le_refl _

/-- Every payload was the event of some state of the reader. -/
theorem exists_event_of_handled {seen : List Bytes} {payload : Bytes}
    (h : payload ∈ (readLines seen).dispatch.handled) :
    ∃ part, part <+: seen ∧ payload.length ≤ (readLines part).event.length := by
  -- the payload is new, or the reader has handled it before
  have hlast : ∀ r : Reader, payload ∈ r.dispatch.handled →
      payload.length ≤ r.event.length ∨ payload ∈ r.handled := by
    intro r hr
    rw [Reader.dispatch] at hr
    split_ifs at hr with h0
    · exact Or.inr hr
    · rcases List.mem_append.1 hr with hold | hnew
      · exact Or.inr hold
      · rw [List.mem_singleton.1 hnew]
        exact Or.inl (length_trimSuffix_le _ _)
  induction seen using List.reverseRecOn with
  | nil => exact ((hlast _ h).elim (fun hle => ⟨[], List.prefix_refl _, hle⟩)
      fun hmem => absurd hmem List.not_mem_nil)
  | append_singleton seen text ih =>
    rcases hlast _ h with hle | hmem
    · exact ⟨seen ++ [text], List.prefix_refl _, hle⟩
    · have hread : readLines (seen ++ [text]) = (readLines seen).line text := by
        rw [readLines, List.foldl_append]
        rfl
      have hbefore : payload ∈ (readLines seen).dispatch.handled := by
        rw [hread, Reader.line] at hmem
        split_ifs at hmem with h0
        · exact hmem
        · have hsame : payload ∈ (readLines seen).handled := by
            cases hcut : cutPrefix dataPrefix text with
            | some data => rw [hcut] at hmem; exact hmem
            | none => rw [hcut] at hmem; exact hmem
          rw [Reader.dispatch]
          split_ifs
          · exact hsame
          · exact List.mem_append_left _ hsame
      obtain ⟨part, hpart, hle⟩ := ih hbefore
      exact ⟨part, hpart.trans (List.prefix_append _ _), hle⟩

/-- **When events are bounded.** -/
theorem bounded_iff (chunks : List Bytes) : Bounded chunks ↔ ShortEvents chunks := by
  constructor
  · rintro ⟨hevent, -⟩ part ⟨pre, suf, hscanned⟩ hblank
    have hprefix : pre ++ part <+: scanned chunks := ⟨suf, hscanned⟩
    have hlen := hevent _ hprefix
    rw [readLines, List.foldl_append, length_event_of_no_blank hblank] at hlen
    omega
  · intro hshort
    have hevent : ∀ seen, seen <+: scanned chunks →
        (readLines seen).event.length ≤ maxEventBytes := by
      intro seen hseen
      obtain ⟨part, hpart, hblank, hlen⟩ := exists_event_suffix seen
      rw [hlen]
      exact hshort part (hpart.isInfix.trans hseen.isInfix) hblank
    refine ⟨hevent, fun payload hpayload => ?_⟩
    obtain ⟨part, hpart, hle⟩ := exists_event_of_handled hpayload
    exact hle.trans (hevent part hpart)

/-- Two lines that fit into the buffer one by one, and not together. -/
theorem not_bounded_of_two {n : ℕ} (hfit : n + 5 < maxEventBytes)
    (hbig : maxEventBytes < n + n + 1) : ¬ Bounded [encode [lettersLine n, lettersLine n]] := by
  have hser : Serializes [[letters n, letters n]] [lettersLine n, lettersLine n] :=
    .last (List.cons_ne_nil _ _) (.data false false _ (.data false false _ .nil))
  have hok : ∀ l ∈ [lettersLine n, lettersLine n], l.line.Ok := by
    simp only [List.mem_cons, List.not_mem_nil, or_false, or_self, forall_eq, lettersLine_ok]
  have hshort : ∀ l ∈ [lettersLine n, lettersLine n], l.bytes.length < maxEventBytes := by
    simp only [List.mem_cons, List.not_mem_nil, or_false, or_self, forall_eq, length_lettersLine,
      hfit]
  have hconnect : connect [encode [lettersLine n, lettersLine n]] =
      [joined [letters n, letters n]] := by
    rw [connect, scanned_encode hok hshort List.flatten_singleton, readLines, Reader.start,
      hser.read hok]
    rfl
  have hlen : (joined [letters n, letters n]).length = n + n + 1 := by
    simp only [joined, List.intercalate_cons_cons, List.intercalate_singleton, List.length_append,
      length_letters, List.length_singleton]
    omega
  rintro ⟨-, hpayload⟩
  rw [hconnect] at hpayload
  have hle := hpayload (joined [letters n, letters n]) List.mem_cons_self
  omega

/-- Two lines of half a megabyte each make an event that is too large. -/
theorem two_lines_exceed :
    ¬ Bounded [encode [lettersLine (2 ^ 19), lettersLine (2 ^ 19)]] :=
  not_bounded_of_two (by rw [maxEventBytes]; omega) (by rw [maxEventBytes]; omega)

end TxGen.SSE
