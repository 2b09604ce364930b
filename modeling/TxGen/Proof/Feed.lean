import TxGen.Proof.Notifier
import TxGen.Proof.SSE
import TxGen.Spec.Feed

/-!
# The chain is followed

From the bytes of the two streams to what is kept and posted.

* `BlockHeader.Members`, `ReorgEvent.Members`: the objects that are headers and reorgs,
  with their members in any order, some missing and others among them; they are decoded as
  such.
* `Sent`: the events sent over one connection after the other, each in any text that JSON
  and the stream format allow for it in lines below the limit of the reader, and in chunks
  of any size.
* `chain_is_followed`: the state shows the last tip and the last reorg sent, and the
  counter has every reorg.
* `reorgs_are_reported`: the posts to Slack are those reorgs that repeat no post of the
  same height within the window.
-/

namespace TxGen.Feed

open Lib

/-! ## Headers and reorgs in JSON -/

/-- The members of an object are those of a header, none of them twice, in any order, with
or without others. What is missing is zero. -/
structure BlockHeader.Members (h : BlockHeader) (ms : List (List Char × Json)) : Prop where
  version : Says "version" 0 (IsNumber (signed 32)) h.version ms
  prevHash : Says "previousHash" [] IsString h.prevHash ms
  merkleRoot : Says "merkleRoot" [] IsString h.merkleRoot ms
  timestamp : Says "time" 0 (IsNumber (unsigned 32)) h.timestamp ms
  bits : Says "bits" 0 (IsNumber (unsigned 32)) h.bits ms
  nonce : Says "nonce" 0 (IsNumber (unsigned 32)) h.nonce ms
  height : Says "height" 0 (IsNumber (unsigned 32)) h.height ms
  hash : Says "hash" [] IsString h.hash ms

/-- The value is an object that is a header. -/
def BlockHeader.IsHeader (h : BlockHeader) : Json → Prop := IsObject h.Members

/-- Likewise for a reorg. -/
structure ReorgEvent.Members (r : ReorgEvent) (ms : List (List Char × Json)) : Prop where
  orphanedHashes : Says "orphanedHashes" .empty (IsArray IsString) r.orphanedHashes ms
  commonAncestor : Says "commonAncestor" none (IsSome BlockHeader.IsHeader) r.commonAncestor ms
  newTip : Says "newTip" none (IsSome BlockHeader.IsHeader) r.newTip ms
  depth : Says "depth" 0 (IsNumber (unsigned 32)) r.depth ms

theorem BlockHeader.lawful : Lawful fields where
  distinct := by decide +kernel
  apart := by simp [fields, RecordField.of, RecordField.Apart]
  get_put := by simp [fields, RecordField.of]
  ext h h' heq := by
    cases h
    cases h'
    simpa [fields, RecordField.of] using heq

/-- **A header is decoded.** -/
theorem BlockHeader.Members.into {h : BlockHeader} {ms : List (List Char × Json)}
    (hms : h.Members ms) : BlockHeader.into .zero (.object ms) = some h := by
  rw [BlockHeader.into, BlockHeader.lawful.intoRecord_object]
  simp only [fields, List.forall_mem_cons]
  exact ⟨hms.version.decode (fun _ hv => hv.into _) rfl,
    hms.prevHash.decode (fun _ hv => hv.into _) rfl,
    hms.merkleRoot.decode (fun _ hv => hv.into _) rfl,
    hms.timestamp.decode (fun _ hv => hv.into _) rfl, hms.bits.decode (fun _ hv => hv.into _) rfl,
    hms.nonce.decode (fun _ hv => hv.into _) rfl, hms.height.decode (fun _ hv => hv.into _) rfl,
    hms.hash.decode (fun _ hv => hv.into _) rfl, List.forall_mem_nil _⟩

/-- A header behind a pointer is decoded. -/
theorem BlockHeader.IsHeader.into {h : BlockHeader} {v : Json} (hv : h.IsHeader v) :
    v ≠ .null ∧ BlockHeader.into .zero v = some h := by
  obtain ⟨ms, rfl, hms⟩ := hv
  exact ⟨Json.noConfusion, hms.into⟩

theorem ReorgEvent.lawful : Lawful fields where
  distinct := by decide +kernel
  apart := by simp [fields, RecordField.of, RecordField.Apart]
  get_put := by simp [fields, RecordField.of]
  ext r r' heq := by
    cases r
    cases r'
    simpa [fields, RecordField.of] using heq

/-- **A reorg is decoded.** -/
theorem ReorgEvent.Members.into {r : ReorgEvent} {ms : List (List Char × Json)}
    (hms : r.Members ms) : ReorgEvent.into .zero (.object ms) = some r := by
  rw [ReorgEvent.into, ReorgEvent.lawful.intoRecord_object]
  simp only [fields, List.forall_mem_cons]
  exact ⟨hms.orphanedHashes.decode (fun _ hv => hv.into fun _ _ hs => hs.into _) rfl,
    hms.commonAncestor.decode (fun _ hv => hv.into fun _ _ hh => hh.into) rfl,
    hms.newTip.decode (fun _ hv => hv.into fun _ _ hh => hh.into) rfl,
    hms.depth.decode (fun _ hv => hv.into _) rfl, List.forall_mem_nil _⟩

/-! ## Bodies of the streams -/

section Sent

variable {α : Type}

/-- A payload carries an event: it is a text of an object with its members. One that
carries none is no JSON, or of a value that is neither an object nor null. -/
def Carries (Members : α → List (List Char × Json) → Prop) : Option α → Bytes → Prop
  | some x, data => ∃ ms t w, data = t ++ w ∧ Json.Text maxNestingDepth (.object ms) t ∧
      Json.Blank w ∧ Members x ms
  | none, data => ∀ v t w, data = t ++ w → Json.Blank w → Json.Text maxNestingDepth v t →
      v ≠ .null ∧ ∀ ms, v ≠ .object ms

/-- The body of a response, delivered in `chunks`, serializes events with these payloads,
in lines that the reader takes. -/
def Body (C : α → Bytes → Prop) (events : List α) (chunks : List Bytes) : Prop :=
  ∃ datas ls, SSE.Serializes datas ls ∧ (∀ l ∈ ls, l.line.Ok) ∧
    (∀ l ∈ ls, l.bytes.length < SSE.maxEventBytes) ∧ chunks.flatten = SSE.encode ls ∧
      List.Forall₂ C events (datas.map SSE.joined)

/-- The events sent over the connections of a stream, one after the other, and the data
handed over from their bodies. -/
def Sent (C : α → Bytes → Prop) (events : List α) (datas : List Bytes) : Prop :=
  ∃ bodies : List (List α × List Bytes), events = bodies.flatMap Prod.fst ∧
    datas = bodies.flatMap (fun b => SSE.connect b.2) ∧ ∀ b ∈ bodies, Body C b.1 b.2

theorem Body.forall₂ {C : α → Bytes → Prop} {events : List α} {chunks : List Bytes}
    (h : Body C events chunks) : List.Forall₂ C events (SSE.connect chunks) := by
  obtain ⟨datas, ls, hser, hok, hshort, hchunks, hevents⟩ := h
  rwa [SSE.connect, SSE.scanned_encode hok hshort hchunks, SSE.readLines, SSE.Reader.start,
    hser.read hok, List.nil_append]

theorem Sent.forall₂ {C : α → Bytes → Prop} {events : List α} {datas : List Bytes}
    (h : Sent C events datas) : List.Forall₂ C events datas := by
  obtain ⟨bodies, rfl, rfl, hbodies⟩ := h
  induction bodies with
  | nil => exact .nil
  | cons b bodies ih =>
    rw [List.flatMap_cons, List.flatMap_cons]
    exact List.rel_append (hbodies b List.mem_cons_self).forall₂
      (ih fun b hb => hbodies b (List.mem_cons_of_mem _ hb))

/-- What carries no event is not decoded, and what carries one is decoded to it. -/
theorem Carries.unmarshal_eq {Members : α → List (List Char × Json) → Prop} {event : Option α}
    {data : Bytes} (h : Carries Members event data) {zero : α} {fields : List (RecordField α)}
    (hinto : ∀ x ms, Members x ms → intoRecord fields zero (.object ms) = some x) :
    unmarshal zero (intoRecord fields) data = event := by
  cases event with
  | some x =>
    obtain ⟨ms, t, w, rfl, ht, hw, hms⟩ := h
    exact unmarshal_of_text ht hw (hinto x ms hms)
  | none =>
    rw [unmarshal]
    cases hv : Json.document maxNestingDepth data with
    | none => rfl
    | some v =>
      obtain ⟨w, hvalue, hw⟩ := Json.document_eq_some.1 hv
      obtain ⟨t, ht, htext, -⟩ := (Json.value_exact _ _ _ _).1 hvalue
      obtain ⟨hnull, hobject⟩ := h v t w ht hw htext
      rw [Option.bind_some]
      cases v with
      | null => exact absurd rfl hnull
      | object ms => exact absurd rfl (hobject ms)
      | _ => rfl

end Sent

/-! ## What the handlers are told -/

/-- The tips that are decoded, in order. -/
def tipsOf (es : List Event) : List BlockHeader :=
  (tipData es).filterMap (unmarshal .zero BlockHeader.into)

/-- The reorgs that are decoded, in order, with the moments. -/
def reorgsOf (es : List Event) : List (ReorgEvent × Moment) :=
  (reorgData es).filterMap fun x => (unmarshal .zero ReorgEvent.into x.1).map (·, x.2)

theorem tipData_append (es fs : List Event) : tipData (es ++ fs) = tipData es ++ tipData fs := by
  induction es with
  | nil => rfl
  | cons e es ih =>
    cases e with
    | tip data => rw [List.cons_append, tipData, tipData, ih, List.cons_append]
    | reorg data m => rw [List.cons_append, tipData, tipData, ih]

theorem reorgData_append (es fs : List Event) :
    reorgData (es ++ fs) = reorgData es ++ reorgData fs := by
  induction es with
  | nil => rfl
  | cons e es ih =>
    cases e with
    | tip data => rw [List.cons_append, reorgData, reorgData, ih]
    | reorg data m => rw [List.cons_append, reorgData, reorgData, ih, List.cons_append]

theorem tipsOf_concat (es : List Event) (e : Event) : tipsOf (es ++ [e]) = tipsOf es ++ tipsOf [e] := by
  rw [tipsOf, tipData_append, List.filterMap_append]
  rfl

theorem reorgsOf_concat (es : List Event) (e : Event) :
    reorgsOf (es ++ [e]) = reorgsOf es ++ reorgsOf [e] := by
  rw [reorgsOf, reorgData_append, List.filterMap_append]
  rfl

/-! ## The status and the counter -/

/-- The state of the tip stream after these tips. -/
def tipState (tips : List BlockHeader) : SSEState :=
  match tips.getLast? with
  | none => ⟨false, 0, [], 0⟩
  | some h => ⟨true, h.height, h.hash, h.timestamp⟩

/-- The status shows the last tip and the last reorg, and the counter has all of them. -/
structure Follows (tips : List BlockHeader) (reorgs : List (ReorgEvent × Moment)) (s : State) :
    Prop where
  sse : s.sse = tipState tips
  lastReorg : s.lastReorg = reorgs.getLast?.map fun x => x.1.record x.2
  total : ∀ depth : ℕ, (s.reorgTotal.get (Notifier.itoa depth)).getD 0 =
    reorgs.countP fun x => x.1.depth = depth

section Follows

variable {reporter : Option Reporter} {tips : List BlockHeader}
  {reorgs : List (ReorgEvent × Moment)} {s : State}

theorem follows_start : Follows [] [] State.start :=
  ⟨rfl, rfl, fun _ => by rw [State.start, Bucket.get_empty]; rfl⟩

theorem Follows.tip (h : Follows tips reorgs s) (hd : BlockHeader) :
    Follows (tips ++ [hd]) reorgs (s.recordTip hd.height hd.hash hd.timestamp) := by
  refine ⟨?_, h.lastReorg, h.total⟩
  rw [tipState, List.getLast?_concat]
  rfl

theorem Follows.reorg (h : Follows tips reorgs s) (r : ReorgEvent) (m : Moment) :
    Follows tips (reorgs ++ [(r, m)]) ((s.recordReorg (r.record m)).incReorg r.depth) := by
  refine ⟨h.sse, ?_, fun depth => ?_⟩
  · rw [List.getLast?_concat]
    rfl
  · simp only [State.incReorg, State.recordReorg, Bucket.get_put, List.countP_append,
      List.countP_singleton, ← h.total depth]
    by_cases hdepth : r.depth = depth
    · subst hdepth
      simp
    · have hlabel : Notifier.itoa depth ≠ Notifier.itoa r.depth := by
        intro hsame
        have := Notifier.itoa_injective hsame
        omega
      simp [hdepth, hlabel]

/-- A report is no part of the status. -/
theorem Follows.report (h : Follows tips reorgs s) (n : Reporter) (m : Moment)
    (record : ReorgRecord) : Follows tips reorgs (s.reportReorg n m record) := by
  rw [State.reportReorg]
  split
  · exact ⟨h.sse, h.lastReorg, h.total⟩
  · exact ⟨h.sse, h.lastReorg, h.total⟩

theorem Follows.step (h : Follows tips reorgs s) (e : Event) :
    Follows (tips ++ tipsOf [e]) (reorgs ++ reorgsOf [e]) (s.step reporter e) := by
  cases e with
  | tip data =>
    rw [show reorgsOf [.tip data] = [] from rfl, List.append_nil, State.step, State.handleTip]
    cases hdata : unmarshal .zero BlockHeader.into data with
    | none => simpa [tipsOf, tipData, hdata] using h
    | some hd => simpa [tipsOf, tipData, hdata] using h.tip hd
  | reorg data m =>
    rw [show tipsOf [.reorg data m] = [] from rfl, List.append_nil, State.step, State.handleReorg]
    cases hdata : unmarshal .zero ReorgEvent.into data with
    | none => simpa [reorgsOf, reorgData, hdata] using h
    | some r =>
      have hr : reorgsOf [.reorg data m] = [(r, m)] := by simp [reorgsOf, reorgData, hdata]
      rw [hr]
      cases reporter with
      | none => exact h.reorg r m
      | some n => exact (h.reorg r m).report n m _

theorem follows_run (es : List Event) :
    Follows (tipsOf es) (reorgsOf es) (run (State.step reporter) .start es) := by
  induction es using List.reverseRecOn with
  | nil => exact follows_start
  | append_singleton es e ih =>
    rw [run_concat, tipsOf_concat, reorgsOf_concat]
    exact ih.step e

end Follows

/-! ## What was sent is what is decoded -/

/-- The reorgs among the events sent, with the moments at which they are handled. -/
def told (reorgs : List (Option ReorgEvent)) (es : List Event) : List (ReorgEvent × Moment) :=
  (reorgs.zip ((reorgData es).map Prod.snd)).filterMap fun x => x.1.map (·, x.2)

theorem Sent.map_eq {α : Type} {Members : α → List (List Char × Json) → Prop}
    {events : List (Option α)} {datas : List Bytes} (h : Sent (Carries Members) events datas)
    {zero : α} {fields : List (RecordField α)}
    (hinto : ∀ x ms, Members x ms → intoRecord fields zero (.object ms) = some x) :
    datas.map (unmarshal zero (intoRecord fields)) = events := by
  have hall := h.forall₂
  clear h
  induction hall with
  | nil => rfl
  | cons hdata _ ih => rw [List.map_cons, hdata.unmarshal_eq hinto, ih]

theorem tipsOf_eq {tips : List (Option BlockHeader)} {es : List Event}
    (h : Sent (Carries BlockHeader.Members) tips (tipData es)) : tipsOf es = tips.reduceOption := by
  rw [← h.map_eq fun _ _ hms => hms.into]
  change _ = List.filterMap id _
  rw [List.filterMap_map]
  rfl

theorem reorgsOf_eq {reorgs : List (Option ReorgEvent)} {es : List Event}
    (h : Sent (Carries ReorgEvent.Members) reorgs ((reorgData es).map Prod.fst)) :
    reorgsOf es = told reorgs es := by
  rw [told, ← h.map_eq fun _ _ hms => hms.into, List.map_map, List.zip_map', List.filterMap_map]
  rfl

/-! ## Reports -/

/-- A post of the same height was made within the window. -/
def repeats (posted : List (ReorgEvent × Moment)) (x : ReorgEvent × Moment) : Prop :=
  ∃ y ∈ posted, reorgHeight y.1 = reorgHeight x.1 ∧ x.2.sent - y.2.sent < Notifier.dedupeWindow

instance (posted : List (ReorgEvent × Moment)) (x : ReorgEvent × Moment) :
    Decidable (repeats posted x) :=
  inferInstanceAs (Decidable (∃ y ∈ posted, reorgHeight y.1 = reorgHeight x.1 ∧
    x.2.sent - y.2.sent < Notifier.dedupeWindow))

/-- The reorgs to post: one that does not repeat another. -/
def announced (reorgs : List (ReorgEvent × Moment)) : List (ReorgEvent × Moment) :=
  reorgs.foldl (fun posted x => if repeats posted x then posted else posted ++ [x]) []

/-- The key and the time under which a post is remembered. -/
def postKey (x : ReorgEvent × Moment) : Bytes × ℤ := (Notifier.reorgKey (reorgHeight x.1), x.2.sent)

/-- The posts are those of the list, and the notifier remembers them. -/
structure Posted (n : Reporter) (posted : List (ReorgEvent × Moment)) (s : State) : Prop where
  posts : s.posts = posted.map fun x => (x.1.record x.2).message n
  current : Notifier.History.Current ⟨s.last, (posted.map postKey).reverse⟩

theorem announced_concat (reorgs : List (ReorgEvent × Moment)) (x : ReorgEvent × Moment) :
    announced (reorgs ++ [x]) =
      if repeats (announced reorgs) x then announced reorgs else announced reorgs ++ [x] := by
  rw [announced, List.foldl_append]
  rfl

theorem mem_of_mem_announced {reorgs : List (ReorgEvent × Moment)} {x : ReorgEvent × Moment}
    (h : x ∈ announced reorgs) : x ∈ reorgs := by
  induction reorgs using List.reverseRecOn with
  | nil => exact h
  | append_singleton reorgs y ih =>
    rw [announced_concat] at h
    split_ifs at h
    · exact List.mem_append_left _ (ih h)
    · rcases List.mem_append.1 h with h | h
      · exact List.mem_append_left _ (ih h)
      · exact List.mem_append_right _ h

theorem reportReorg_of_true {n : Reporter} {m : Moment} {s : State} {record : ReorgRecord}
    (h : (Notifier.shouldSend m.order m.sent (Notifier.reorgKey record.height) s.last).1 = true) :
    s.reportReorg n m record =
      { s with
        last := (Notifier.shouldSend m.order m.sent (Notifier.reorgKey record.height) s.last).2
        posts := s.posts ++ [record.message n] } := by
  rw [State.reportReorg]
  split
  case h_1 hsent => rw [hsent] at h; cases h
  case h_2 hsent => rw [hsent]

theorem reportReorg_of_false {n : Reporter} {m : Moment} {s : State} {record : ReorgRecord}
    (h : (Notifier.shouldSend m.order m.sent (Notifier.reorgKey record.height) s.last).1 = false) :
    s.reportReorg n m record = s := by
  have hlast := Notifier.shouldSend_of_false h
  rw [State.reportReorg]
  split
  case h_1 hsent =>
    rw [hsent] at hlast
    dsimp only at hlast
    rw [hlast]
  case h_2 hsent => rw [hsent] at h; cases h

/-- A reorg is posted when it repeats no other. -/
theorem Posted.report {n : Reporter} {posted : List (ReorgEvent × Moment)} {s : State}
    (h : Posted n posted s) (x : ReorgEvent × Moment) (hx : ∀ y ∈ posted, y.2.sent ≤ x.2.sent) :
    Posted n (if repeats posted x then posted else posted ++ [x])
      (s.reportReorg n x.2 (x.1.record x.2)) := by
  obtain ⟨r, m⟩ := x
  have hbefore : Notifier.History.NotBefore ⟨s.last, (posted.map postKey).reverse⟩
      ⟨Notifier.reorgKey (reorgHeight r), m.sent, m.order⟩ := by
    intro e he
    obtain ⟨y, hy, rfl⟩ := List.mem_map.1 (List.mem_reverse.1 he)
    exact hx y hy
  have hsend := h.current.shouldSend_iff hbefore
  have hnext := h.current.step hbefore
  have hrepeats : (∀ e ∈ (posted.map postKey).reverse, e.1 = Notifier.reorgKey (reorgHeight r) →
      ¬m.sent - e.2 < Notifier.dedupeWindow) ↔ ¬repeats posted (r, m) := by
    simp only [repeats, List.mem_reverse, List.forall_mem_map, postKey, Notifier.reorgKey_inj,
      not_exists, not_and]
  dsimp only at hsend
  rw [hrepeats] at hsend
  have hheight : (r.record m).height = reorgHeight r := rfl
  split_ifs with hrep
  · have hfalse := Bool.eq_false_iff.2 fun ht => hsend.1 ht hrep
    rw [← hheight] at hfalse
    rwa [reportReorg_of_false hfalse]
  · have htrue := hsend.2 hrep
    rw [Notifier.History.step_of_true (h := ⟨s.last, (posted.map postKey).reverse⟩)
      (c := ⟨Notifier.reorgKey (reorgHeight r), m.sent, m.order⟩) htrue] at hnext
    rw [← hheight] at htrue hnext
    rw [reportReorg_of_true htrue]
    refine ⟨?_, ?_⟩
    · rw [List.map_append, ← h.posts]
      rfl
    · rw [List.map_append, List.reverse_append]
      exact hnext

/-- The reorgs are handled at times that do not decrease. -/
def InOrder (es : List Event) : Prop := (reorgData es).Pairwise fun x y => x.2.sent ≤ y.2.sent

theorem sent_le_of_inOrder {es : List Event} {data : Bytes} {m : Moment}
    (h : InOrder (es ++ [.reorg data m])) : ∀ y ∈ reorgsOf es, y.2.sent ≤ m.sent := by
  intro y hy
  rw [InOrder, reorgData_append, List.pairwise_append] at h
  obtain ⟨x, hx, hxy⟩ := List.mem_filterMap.1 hy
  obtain ⟨r, -, rfl⟩ := Option.map_eq_some_iff.1 hxy
  exact h.2.2 x hx _ List.mem_cons_self

theorem posted_run (n : Reporter) {es : List Event} (h : InOrder es) :
    Posted n (announced (reorgsOf es)) (run (State.step (some n)) .start es) := by
  induction es using List.reverseRecOn with
  | nil => exact ⟨rfl, Notifier.History.current_start⟩
  | append_singleton es e ih =>
    have hprev := ih (by rw [InOrder, reorgData_append] at h; exact (List.pairwise_append.1 h).1)
    rw [run_concat, reorgsOf_concat]
    cases e with
    | tip data =>
      rw [show reorgsOf [.tip data] = [] from rfl, List.append_nil, State.step, State.handleTip]
      split
      · exact hprev
      · exact ⟨hprev.posts, hprev.current⟩
    | reorg data m =>
      rw [State.step, State.handleReorg]
      cases hdata : unmarshal .zero ReorgEvent.into data with
      | none => simpa [reorgsOf, reorgData, hdata] using hprev
      | some r =>
        have hr : reorgsOf [.reorg data m] = [(r, m)] := by simp [reorgsOf, reorgData, hdata]
        rw [hr, announced_concat]
        have hrecorded : Posted n (announced (reorgsOf es))
            (((run (State.step (some n)) .start es).recordReorg (r.record m)).incReorg r.depth) :=
          ⟨hprev.posts, hprev.current⟩
        exact hrecorded.report (r, m) fun y hy =>
          sent_le_of_inOrder h y (mem_of_mem_announced hy)

/-! ## An example -/

/-- A tip at height 12. -/
def aTip : BlockHeader := ⟨1, ['p'], [], 5, 0, 0, 12, ['t']⟩

/-- A reorg of two blocks up to it. -/
def aReorg : ReorgEvent := ⟨⟨[['o'], ['q']], []⟩, none, some aTip, 2⟩

def aTipText : Bytes :=
  ascii "\x7b\"hash\":\"t\",\"height\":12,\"version\":1,\"previousHash\":\"p\"," ++
    ascii "\"time\":5,\"more\":[]\x7d"

def aReorgText : Bytes :=
  ascii "\x7b\"depth\":2,\"orphanedHashes\":[\"o\", \"q\"],\"commonAncestor\":null,\"newTip\":" ++
    aTipText ++ ascii "\x7d"

/-- The members of the tip. -/
def aTipMembers : List (List Char × Json) :=
  [("hash".toList, .string ['t']), ("height".toList, .number (ascii "12")),
    ("version".toList, .number (ascii "1")), ("previousHash".toList, .string ['p']),
    ("time".toList, .number (ascii "5")), ("more".toList, .array [])]

def aReorgMembers : List (List Char × Json) :=
  [("depth".toList, .number (ascii "2")),
    ("orphanedHashes".toList, .array [.string ['o'], .string ['q']]),
    ("commonAncestor".toList, .null), ("newTip".toList, .object aTipMembers)]

theorem members_aTip : aTip.Members aTipMembers where
  version := .inl ⟨.number (ascii "1"), by decide +kernel, _, rfl, by decide +kernel⟩
  prevHash := .inl ⟨_, by decide +kernel, rfl⟩
  merkleRoot := .inr ⟨rfl, .inl (by decide +kernel)⟩
  timestamp := .inl ⟨.number (ascii "5"), by decide +kernel, _, rfl, by decide +kernel⟩
  bits := .inr ⟨rfl, .inl (by decide +kernel)⟩
  nonce := .inr ⟨rfl, .inl (by decide +kernel)⟩
  height := .inl ⟨.number (ascii "12"), by decide +kernel, _, rfl, by decide +kernel⟩
  hash := .inl ⟨_, by decide +kernel, rfl⟩

theorem members_aReorg : aReorg.Members aReorgMembers where
  orphanedHashes := .inl ⟨.array [.string ['o'], .string ['q']], by decide +kernel, rfl, _, rfl,
    .cons rfl (.cons rfl .nil)⟩
  commonAncestor := .inr ⟨rfl, .inr (by decide +kernel)⟩
  newTip := .inl ⟨.object aTipMembers, by decide +kernel, _, rfl, _, rfl, members_aTip⟩
  depth := .inl ⟨.number (ascii "2"), by decide +kernel, _, rfl, by decide +kernel⟩

/-- A text that is read as an object carries the event that its members are of. -/
theorem carries_of_value {α : Type} {M : α → List (List Char × Json) → Prop} {x : α} {d : ℕ}
    (hd : d ≤ maxNestingDepth) {ms : List (List Char × Json)} {data : Bytes}
    (hvalue : Json.value d data = some (.object ms, [])) (hms : M x ms) :
    Carries M (some x) data := by
  obtain ⟨t, rfl, ht, -⟩ := (Json.value_exact _ _ _ _).1 hvalue
  exact ⟨ms, t, [], rfl, ht.mono hd, nofun, hms⟩

/-- What is not read carries no event. -/
theorem carries_none {α : Type} {M : α → List (List Char × Json) → Prop} {data : Bytes}
    (h : Json.document maxNestingDepth data = none) : Carries M none data := by
  rintro v t w rfl hw ht
  rw [Json.document_of_text ht hw] at h
  cases h

/-- The lines that send one payload. -/
def oneEvent (data : Bytes) : List SSE.Ended := [⟨.data true data, false⟩, ⟨.blank, false⟩]

/-- A connection that sends one event. -/
theorem Sent.cons {α : Type} {C : α → Bytes → Prop} {x : α} {data : Bytes} (h : C x data)
    (hok : (SSE.Line.data true data).Ok) (hshort : data.length < 1000) {events : List α}
    {datas : List Bytes} (hrest : Sent C events datas) : Sent C (x :: events) (data :: datas) := by
  have hser : SSE.Serializes [[data]] (oneEvent data) :=
    .event false (List.cons_ne_nil _ _) (.data true false data .nil) .nil
  have hline : ∀ l ∈ oneEvent data, l.line.Ok ∧ l.bytes.length < SSE.maxEventBytes := by
    intro l hl
    rcases List.mem_cons.1 hl with rfl | hl
    · refine ⟨hok, ?_⟩
      simp only [SSE.Ended.bytes, SSE.Line.bytes, SSE.dataPrefix, SSE.maxEventBytes, if_true,
        List.length_append, List.length_cons, List.length_nil, Bool.false_eq_true, if_false]
      omega
    · obtain rfl := List.mem_singleton.1 hl
      exact ⟨trivial, by decide⟩
  have hjoined : [data] = [[data]].map SSE.joined := by simp [SSE.joined, List.intercalate]
  have hconnect : SSE.connect [SSE.encode (oneEvent data)] = [data] := by
    rw [SSE.connect, SSE.scanned_encode (fun l hl => (hline l hl).1) (fun l hl => (hline l hl).2)
      List.flatten_singleton, SSE.readLines, SSE.Reader.start, hser.read fun l hl => (hline l hl).1,
      List.nil_append, ← hjoined]
  obtain ⟨bodies, rfl, rfl, hbodies⟩ := hrest
  refine ⟨([x], [SSE.encode (oneEvent data)]) :: bodies, rfl, ?_, ?_⟩
  · rw [List.flatMap_cons, hconnect]
    rfl
  · intro b hb
    rcases List.mem_cons.1 hb with rfl | hb
    · exact ⟨[[data]], oneEvent data, hser, fun l hl => (hline l hl).1, fun l hl => (hline l hl).2,
        List.flatten_singleton, hjoined ▸ .cons h .nil⟩
    · exact hbodies b hb

theorem Sent.nil {α : Type} {C : α → Bytes → Prop} : Sent C [] [] := ⟨[], rfl, rfl, nofun⟩

/-- A moment with three chains, at the same time for both. -/
def moment (now : ℤ) : Moment := ⟨now, 3, now, Notifier.keyOrder⟩

/-- A reorg, a tip, something else on the reorg stream, and the same reorg after a minute
and again after five. -/
def fiveMinutes : List Event :=
  [.reorg aReorgText (moment 0), .tip aTipText, .reorg [9] (moment 1),
    .reorg aReorgText (moment (60 * 10 ^ 9)), .reorg aReorgText (moment (300 * 10 ^ 9))]

theorem sent_tips : Sent (Carries BlockHeader.Members) [some aTip] (tipData fiveMinutes) := by
  have htip : Carries BlockHeader.Members (some aTip) aTipText :=
    carries_of_value (d := 3) (by decide) (by decide +kernel) members_aTip
  exact .cons htip (by decide +kernel) (by decide +kernel) .nil

theorem sent_reorgs : Sent (Carries ReorgEvent.Members) [some aReorg, none, some aReorg, some aReorg]
    ((reorgData fiveMinutes).map Prod.fst) := by
  have hreorg : Carries ReorgEvent.Members (some aReorg) aReorgText :=
    carries_of_value (d := 3) (by decide) (by decide +kernel) members_aReorg
  have hok : (SSE.Line.data true aReorgText).Ok := by decide +kernel
  have hshort : aReorgText.length < 1000 := by decide +kernel
  have hnone : Carries ReorgEvent.Members none [9] := carries_none (by decide +kernel)
  exact .cons hreorg hok hshort (.cons hnone (by decide) (by decide)
    (.cons hreorg hok hshort (.cons hreorg hok hshort .nil)))

/-! ## From what is sent to what is kept -/

/-- **The chain is followed.** However the events of the two streams come together, over
how many connections and in what chunks, the state shows the last tip and the last reorg
that were sent, and the counter has the reorgs by their depth. Payloads that are no JSON,
or neither an object nor null, change nothing. -/
theorem chain_is_followed (reporter : Option Reporter) {es : List Event}
    {tips : List (Option BlockHeader)} {reorgs : List (Option ReorgEvent)}
    (htips : Sent (Carries BlockHeader.Members) tips (tipData es))
    (hreorgs : Sent (Carries ReorgEvent.Members) reorgs ((reorgData es).map Prod.fst)) :
    (run (State.step reporter) .start es).sse = tipState tips.reduceOption ∧
    (run (State.step reporter) .start es).lastReorg =
      (told reorgs es).getLast?.map (fun x => x.1.record x.2) ∧
    ∀ depth : ℕ, ((run (State.step reporter) .start es).reorgTotal.get
      (Notifier.itoa depth)).getD 0 = (told reorgs es).countP fun x => x.1.depth = depth := by
  have h : Follows (tipsOf es) (reorgsOf es) (run (State.step reporter) .start es) :=
    follows_run es
  rw [tipsOf_eq htips, reorgsOf_eq hreorgs] at h
  exact ⟨h.sse, h.lastReorg, h.total⟩

/-- After the five minutes. -/
theorem chain_is_followed_fiveMinutes :
    (run (State.step none) .start fiveMinutes).sse = tipState [aTip] ∧
    (run (State.step none) .start fiveMinutes).lastReorg =
      some (aReorg.record (moment (300 * 10 ^ 9))) ∧
    ((run (State.step none) .start fiveMinutes).reorgTotal.get (Notifier.itoa 2)).getD 0 = 3 := by
  obtain ⟨hsse, hreorg, htotal⟩ := chain_is_followed none sent_tips sent_reorgs
  exact ⟨hsse, hreorg, htotal 2⟩

/-- **Reorgs are reported.** Of the reorgs sent, `ReportReorg` posts those, once each and
in their order, that do not repeat a post of the same height within five minutes. -/
theorem reorgs_are_reported (n : Reporter) {es : List Event} {reorgs : List (Option ReorgEvent)}
    (hreorgs : Sent (Carries ReorgEvent.Members) reorgs ((reorgData es).map Prod.fst))
    (horder : InOrder es) :
    (run (State.step (some n)) .start es).posts =
      (announced (told reorgs es)).map fun x => (x.1.record x.2).message n := by
  rw [← reorgsOf_eq hreorgs]
  exact (posted_run n horder).posts

/-- The first and the third of them are posted. -/
theorem reorgs_are_reported_fiveMinutes :
    (run (State.step (some ⟨[], []⟩)) .start fiveMinutes).posts =
      [(aReorg.record (moment 0)).message ⟨[], []⟩,
        (aReorg.record (moment (300 * 10 ^ 9))).message ⟨[], []⟩] := by
  have horder : InOrder fiveMinutes := by simp [InOrder, fiveMinutes, reorgData, moment]
  exact reorgs_are_reported ⟨[], []⟩ sent_reorgs horder

end TxGen.Feed
