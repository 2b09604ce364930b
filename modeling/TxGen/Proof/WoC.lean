import TxGen.Spec.WoC

/-!
# A listing is fetched whole

`FetchUTXOs` reads no more than 32 MiB of a body and stops reading when a connection
breaks. Neither makes a listing look shorter than it is: a JSON text that has been cut off
is no JSON text (`listing_is_whole`). The other way round, a listing that is sent in any
text of it is returned entry by entry, after whatever failures that pass
(`listing_is_fetched`).
-/

namespace TxGen.WoC

open Lib

/-! ## Listings in JSON -/

/-- The members of an object are those of an entry, none of them twice. What is missing is
zero. -/
structure WocUTXO.Members (u : WocUTXO) (ms : List (List Char × Json)) : Prop where
  height : Says "height" 0 (IsNumber (signed 64)) u.height ms
  txHash : Says "tx_hash" [] IsString u.txHash ms
  txPos : Says "tx_pos" 0 (IsNumber (unsigned 32)) u.txPos ms
  value : Says "value" 0 (IsNumber (unsigned 64)) u.value ms

/-- The members of an object are those of a listing, without an error. -/
structure Listing (entries : List WocUTXO) (ms : List (List Char × Json)) : Prop where
  result : Says "result" .empty (IsArray fun u => IsObject (WocUTXO.Members u)) ⟨entries, []⟩ ms
  error : ∀ v ∈ valuesOf "error" ms, v = .null ∨ v = .string []

theorem WocUTXO.lawful : Lawful fields where
  distinct := by decide +kernel
  apart := by simp [fields, RecordField.of, RecordField.Apart]
  get_put := by simp [fields, RecordField.of]
  ext u u' heq := by
    cases u
    cases u'
    simpa [fields, RecordField.of] using heq

/-- **An entry is decoded.** -/
theorem WocUTXO.Members.into {u : WocUTXO} {ms : List (List Char × Json)} (hms : u.Members ms) :
    intoRecord fields .zero (.object ms) = some u := by
  rw [WocUTXO.lawful.intoRecord_object]
  simp only [fields, List.forall_mem_cons]
  exact ⟨hms.height.decode (fun _ hv => hv.into _) rfl, hms.txHash.decode (fun _ hv => hv.into _) rfl,
    hms.txPos.decode (fun _ hv => hv.into _) rfl, hms.value.decode (fun _ hv => hv.into _) rfl,
    List.forall_mem_nil _⟩

theorem UnspentResponse.lawful : Lawful fields where
  distinct := by decide +kernel
  apart := by simp [fields, RecordField.of, RecordField.Apart]
  get_put := by simp [fields, RecordField.of]
  ext r r' heq := by
    cases r
    cases r'
    simpa [fields, RecordField.of] using heq

/-- Null and the empty string leave an error empty. -/
theorem foldlM_error {vs : List Json} (h : ∀ v ∈ vs, v = .null ∨ v = .string []) :
    vs.foldlM intoString [] = some [] := by
  induction vs with
  | nil => rfl
  | cons v vs ih =>
    have hrest := ih fun v hv => h v (List.mem_cons_of_mem _ hv)
    rcases h v List.mem_cons_self with rfl | rfl
    · exact hrest
    · exact hrest

/-- **A listing is decoded.** -/
theorem Listing.into {entries : List WocUTXO} {ms : List (List Char × Json)}
    (hms : Listing entries ms) :
    intoRecord UnspentResponse.fields .zero (.object ms) = some ⟨⟨entries, []⟩, []⟩ := by
  have hentry : ∀ u v, IsObject (WocUTXO.Members u) v →
      intoRecord WocUTXO.fields .zero v = some u := by
    rintro u v ⟨ms, rfl, hms⟩
    exact hms.into
  rw [UnspentResponse.lawful.intoRecord_object]
  simp only [UnspentResponse.fields, List.forall_mem_cons]
  exact ⟨hms.result.decode (fun _ hv => hv.into hentry) rfl, foldlM_error hms.error,
    List.forall_mem_nil _⟩

/-! ## Retries -/

section Loop

variable {once : Turn → Except (Bool × FetchError) (List UTXO)} {turn : ℕ → Turn}
  {utxos : List UTXO}

/-- The attempt fails with a retryable error, and there is another one. -/
def Retried (once : Turn → Except (Bool × FetchError) (List UTXO)) (t : Turn) : Prop :=
  (∃ err, once t = .error (true, err)) ∧ t.slept = true

theorem fetchFrom_zero {attempt : ℕ} :
    fetchFrom once turn 0 attempt = .ok utxos ↔ once (turn attempt) = .ok utxos := by
  rw [fetchFrom]
  cases once (turn attempt) with
  | ok u => simp [Except.mapError]
  | error e => simp [Except.mapError]

theorem fetchFrom_succ {left attempt : ℕ} :
    fetchFrom once turn (left + 1) attempt = .ok utxos ↔
      once (turn attempt) = .ok utxos ∨
        Retried once (turn attempt) ∧ fetchFrom once turn left (attempt + 1) = .ok utxos := by
  rw [fetchFrom, Retried]
  cases honce : once (turn attempt) with
  | ok u => simp
  | error e =>
    obtain ⟨retryable, err⟩ := e
    cases retryable with
    | false => simp
    | true => cases (turn attempt).slept <;> simp

/-- The loop returns what the first attempt returns that is not retried. -/
theorem fetchFrom_eq_ok {left attempt : ℕ} :
    fetchFrom once turn left attempt = .ok utxos ↔
      ∃ k, attempt ≤ k ∧ k ≤ attempt + left ∧ once (turn k) = .ok utxos ∧
        ∀ i, attempt ≤ i → i < k → Retried once (turn i) := by
  induction left generalizing attempt with
  | zero =>
    rw [fetchFrom_zero]
    constructor
    · intro h
      exact ⟨attempt, le_rfl, le_rfl, h, fun i hi hlt => by omega⟩
    · rintro ⟨k, hle, hle', hk, -⟩
      obtain rfl : k = attempt := by omega
      exact hk
  | succ left ih =>
    rw [fetchFrom_succ, ih]
    constructor
    · rintro (h | ⟨hretried, k, hle, hle', hk, hbefore⟩)
      · exact ⟨attempt, le_rfl, by omega, h, fun i hi hlt => by omega⟩
      · refine ⟨k, by omega, by omega, hk, fun i hi hlt => ?_⟩
        rcases hi.eq_or_lt with rfl | hi
        · exact hretried
        · exact hbefore i hi hlt
    · rintro ⟨k, hle, hle', hk, hbefore⟩
      rcases hle.eq_or_lt with rfl | hlt
      · exact .inl hk
      · exact .inr ⟨hbefore attempt le_rfl hlt, k, hlt, by omega, hk,
          fun i hi hlt => hbefore i (by omega) hlt⟩

end Loop

/-- An attempt that fails for a while, and the sleep after it: there is no answer though
the context is not done, the body breaks off, or the answer is 429 or 500 and above. -/
def Turn.Transient (t : Turn) : Prop :=
  t.slept = true ∧
    match t.answer with
    | .failed _ => t.done = false
    | .response status body cut =>
      (cut ≠ none ∧ body.length < maxResponseBytes) ∨ status = 429 ∨ 500 ≤ status

/-- An answer whose body is read to its end or as far as it is read at all. -/
def Answer.Reads (a : Answer) (status : ℕ) (body : Bytes) : Prop :=
  ∃ cut, a = .response status body cut ∧ (cut = none ∨ maxResponseBytes ≤ body.length)

theorem fetchOnce_of_reads {parseError : Bytes → Option Bytes} {url : Bytes}
    (hurl : parseError url = none) {t : Turn} {status : ℕ} {body : Bytes}
    (h : t.answer.Reads status body) :
    fetchOnce parseError url t =
      if status ≠ 200 then .error (status = 429 ∨ status ≥ 500,
        .status status ((body.take maxResponseBytes).take maxErrorBytes))
      else decodeListing (body.take maxResponseBytes) := by
  obtain ⟨cut, hanswer, hcut⟩ := h
  have hnone : (if body.length < maxResponseBytes then cut else none) = none := by
    rcases hcut with rfl | hlong
    · exact ite_self _
    · rw [if_neg hlong.not_gt]
  simp only [fetchOnce, hurl, hanswer, hnone]

theorem decodeListing_not_retryable {body : Bytes} {err : FetchError} :
    decodeListing body ≠ .error (true, err) := by
  rw [decodeListing]
  split
  · nofun
  · split_ifs
    · nofun
    · nofun

/-- Attempts that fail for a while are those that are retried. -/
theorem retried_iff {parseError : Bytes → Option Bytes} {url : Bytes}
    (hurl : parseError url = none) {t : Turn} :
    Retried (fetchOnce parseError url) t ↔ t.Transient := by
  rw [Retried, and_comm, Turn.Transient]
  refine and_congr_right fun _ => ?_
  cases hanswer : t.answer with
  | failed cause => simp [fetchOnce, hurl, hanswer]
  | response status body cut =>
    by_cases hread : cut ≠ none ∧ body.length < maxResponseBytes
    · obtain ⟨cause, rfl⟩ := Option.ne_none_iff_exists'.1 hread.1
      simp [fetchOnce, hurl, hanswer, hread.2]
    · have hreads : t.answer.Reads status body := by
        refine ⟨cut, hanswer, ?_⟩
        by_contra hne
        rw [not_or, not_le] at hne
        exact hread hne
      rw [fetchOnce_of_reads hurl hreads]
      split_ifs with h200
      · simp [hread]
      · have hlow : ¬(status = 429 ∨ 500 ≤ status) := by omega
        simp [decodeListing_not_retryable, hread, hlow]

/-! ## Whole listings -/

/-- The URL of a lookup. -/
def Client.url (c : Client) (scriptHash : Bytes) : Bytes :=
  c.baseURL ++ ascii "/script/" ++ scriptHash ++ ascii "/unspent/all"

theorem fetchUTXOs_eq_ok {parseError : Bytes → Option Bytes} {c : Client} {scriptHash : Bytes}
    (hmax : 1 ≤ c.retryMax) {turn : ℕ → Turn} {utxos : List UTXO} :
    c.fetchUTXOs parseError scriptHash turn = .ok utxos ↔
      ∃ k : ℕ, 1 ≤ k ∧ k ≤ c.retryMax ∧
        fetchOnce parseError (c.url scriptHash) (turn k) = .ok utxos ∧
        ∀ i, 1 ≤ i → i < k → Retried (fetchOnce parseError (c.url scriptHash)) (turn i) := by
  rw [Client.fetchUTXOs, fetchFrom_eq_ok]
  refine exists_congr fun k => and_congr_right fun _ => ?_
  refine and_congr_left fun _ => ?_
  omega

/-- The listing that a value is. -/
def listingOf (v : Json) : Option (List UTXO) :=
  (intoRecord UnspentResponse.fields .zero v).bind fun r =>
    if r.error = [] then some (r.result.items.map WocUTXO.utxo) else none

theorem decodeListing_eq_ok {body : Bytes} {utxos : List UTXO} :
    decodeListing body = .ok utxos ↔
      ∃ v, Json.document maxNestingDepth body = some v ∧ listingOf v = some utxos := by
  rw [decodeListing, unmarshal]
  cases Json.document maxNestingDepth body with
  | none => simp
  | some v =>
    rw [Option.bind_some]
    cases hv : intoRecord UnspentResponse.fields .zero v with
    | none => simp [listingOf, hv]
    | some r =>
      by_cases hr : r.error = []
      · simp [listingOf, hv, hr]
      · simp [listingOf, hv, hr]

/-- Only objects and null are listings, and both show where they end. -/
theorem closed_of_listing {v : Json} {utxos : List UTXO} (h : listingOf v = some utxos) :
    Json.Closed v := by
  cases v with
  | number l => cases h
  | _ => trivial

/-- What an attempt returns, it has read with an answer of 200. -/
theorem fetchOnce_eq_ok {parseError : Bytes → Option Bytes} {url : Bytes} {t : Turn}
    {utxos : List UTXO} :
    fetchOnce parseError url t = .ok utxos ↔
      parseError url = none ∧ ∃ body, t.answer.Reads 200 body ∧
        decodeListing (body.take maxResponseBytes) = .ok utxos := by
  constructor
  · intro h
    cases hurl : parseError url with
    | some cause => simp [fetchOnce, hurl] at h
    | none =>
      cases hanswer : t.answer with
      | failed cause => simp [fetchOnce, hurl, hanswer] at h
      | response status body cut =>
        by_cases hreads : t.answer.Reads status body
        · rw [fetchOnce_of_reads hurl hreads] at h
          split_ifs at h with h200
          obtain rfl : status = 200 := not_not.1 h200
          exact ⟨rfl, body, hanswer ▸ hreads, h⟩
        · have hcut : cut ≠ none ∧ body.length < maxResponseBytes := by
            by_contra hne
            exact hreads ⟨cut, hanswer, by rwa [not_and_or, not_not, not_lt] at hne⟩
          obtain ⟨cause, rfl⟩ := Option.ne_none_iff_exists'.1 hcut.1
          simp [fetchOnce, hurl, hanswer, hcut.2] at h
  · rintro ⟨hurl, body, hreads, h⟩
    rw [fetchOnce_of_reads hurl hreads, if_neg (not_not.2 rfl), h]

theorem retryMax_pos (opts : Options) : 1 ≤ (new opts).retryMax := le_max_right _ _

/-- The first output of the transaction `ab`. -/
def anEntry : WocUTXO := ⟨7, ['a', 'b'], 0, 5000⟩

def anEntryMembers : List (List Char × Json) :=
  [("tx_hash".toList, .string ['a', 'b']), ("value".toList, .number (ascii "5000")),
    ("height".toList, .number (ascii "7"))]

/-- A listing of it. -/
def aListing : List (List Char × Json) :=
  [("error".toList, .string []), ("result".toList, .array [.object anEntryMembers])]

def aListingText : Bytes :=
  ascii "\x7b\"error\":\"\",\"result\":[\x7b\"tx_hash\":\"ab\"," ++
    ascii "\"value\":5000,\"height\":7\x7d]\x7d"

/-- A server that is overloaded at first, and then answers with the listing. -/
def overloaded (i : ℕ) : Turn :=
  ⟨if i = 1 then .response 503 [] none else .response 200 aListingText none, false, true⟩

theorem members_anEntry : anEntry.Members anEntryMembers where
  height := .inl ⟨.number (ascii "7"), by decide +kernel, _, rfl, by decide +kernel⟩
  txHash := .inl ⟨_, by decide +kernel, rfl⟩
  txPos := .inr ⟨rfl, .inl (by decide +kernel)⟩
  value := .inl ⟨.number (ascii "5000"), by decide +kernel, _, rfl, by decide +kernel⟩

theorem listing_anEntry : Listing [anEntry] aListing where
  result := .inl ⟨.array [.object anEntryMembers], by decide +kernel, rfl, _, rfl,
    .cons ⟨_, rfl, members_anEntry⟩ .nil⟩
  error := by
    rw [show valuesOf "error" aListing = [.string []] by decide +kernel]
    simp

theorem transient_overloaded (i : ℕ) (hi : 1 ≤ i) (hlt : i < 2) : (overloaded i).Transient := by
  obtain rfl : i = 1 := by omega
  exact ⟨rfl, .inr (.inr (by decide))⟩

/-- **A listing is taken whole or not at all.** The UTXOs that `FetchUTXOs` returns are a
listing sent with an answer of 200, after attempts that failed for a while. When the whole
body is JSON, however long it is, they are all that it lists. -/
theorem listing_is_whole (opts : Options) {parseError : Bytes → Option Bytes} {scriptHash : Bytes}
    {turn : ℕ → Turn} {utxos : List UTXO}
    (h : (new opts).fetchUTXOs parseError scriptHash turn = .ok utxos) :
    ∃ k : ℕ, 1 ≤ k ∧ k ≤ (new opts).retryMax ∧ (∀ i, 1 ≤ i → i < k → (turn i).Transient) ∧
      ∃ body, (turn k).answer.Reads 200 body ∧
        (∃ v, Json.document maxNestingDepth (body.take maxResponseBytes) = some v ∧
          listingOf v = some utxos) ∧
        ∀ v, Json.document maxNestingDepth body = some v → listingOf v = some utxos := by
  obtain ⟨k, hk, hle, honce, hbefore⟩ := (fetchUTXOs_eq_ok (retryMax_pos opts)).1 h
  obtain ⟨hurl, body, hreads, hdecode⟩ := fetchOnce_eq_ok.1 honce
  obtain ⟨v, hv, hlisting⟩ := decodeListing_eq_ok.1 hdecode
  refine ⟨k, hk, hle, fun i hi hlt => (retried_iff hurl).1 (hbefore i hi hlt), body, hreads,
    ⟨v, hv, hlisting⟩, fun v' hv' => ?_⟩
  -- the rest of the body cannot make another value of it
  rw [← List.take_append_drop maxResponseBytes body] at hv'
  rw [Json.document_of_append hv (closed_of_listing hlisting) hv']
  exact hlisting

/-- The listing of the second attempt. -/
theorem listing_is_whole_overloaded :
    ∃ k : ℕ, 1 ≤ k ∧ k ≤ (new ⟨[], 3⟩).retryMax ∧
      (∀ i, 1 ≤ i → i < k → (overloaded i).Transient) ∧
      ∃ body, (overloaded k).answer.Reads 200 body ∧
        (∃ v, Json.document maxNestingDepth (body.take maxResponseBytes) = some v ∧
          listingOf v = some [anEntry.utxo]) ∧
        ∀ v, Json.document maxNestingDepth body = some v → listingOf v = some [anEntry.utxo] := by
  have hfetch : (new ⟨[], 3⟩).fetchUTXOs (fun _ => none) [] overloaded = .ok [anEntry.utxo] := by
    decide +kernel
  exact listing_is_whole ⟨[], 3⟩ hfetch

/-- When `result` comes again, entries are decoded over those that are there, also over one
behind a shorter listing in between. -/
example : listingOf (.object
    [("result".toList, .array [.object anEntryMembers, .object anEntryMembers]),
      ("result".toList, .array [.object []]),
      ("result".toList, .array [.object [], .object [("value".toList, .number (ascii "2"))]])]) =
    some [anEntry.utxo, { anEntry.utxo with value := 2 }] := by decide +kernel

/-- **A listing is returned entry by entry.** When an attempt is answered with 200 and any
text of a listing, of 32 MiB at most, and those before it failed for a while, then
`FetchUTXOs` returns the entries in their order. -/
theorem listing_is_fetched (opts : Options) {parseError : Bytes → Option Bytes} {scriptHash : Bytes}
    (hurl : parseError ((new opts).url scriptHash) = none) {turn : ℕ → Turn} {k : ℕ} (hk : 1 ≤ k)
    (hle : k ≤ (new opts).retryMax) (hbefore : ∀ i, 1 ≤ i → i < k → (turn i).Transient)
    {ms : List (List Char × Json)} {t w : Bytes} (ht : Json.Text maxNestingDepth (.object ms) t)
    (hw : Json.Blank w) (hanswer : (turn k).answer = .response 200 (t ++ w) none)
    (hshort : (t ++ w).length ≤ maxResponseBytes) {entries : List WocUTXO}
    (hms : Listing entries ms) :
    (new opts).fetchUTXOs parseError scriptHash turn = .ok (entries.map WocUTXO.utxo) := by
  refine (fetchUTXOs_eq_ok (retryMax_pos opts)).2 ⟨k, hk, hle, fetchOnce_eq_ok.2 ?_,
    fun i hi hlt => (retried_iff hurl).2 (hbefore i hi hlt)⟩
  refine ⟨hurl, t ++ w, ⟨none, hanswer, .inl rfl⟩, decodeListing_eq_ok.2 ⟨.object ms, ?_, ?_⟩⟩
  · rw [List.take_of_length_le hshort]
    exact Json.document_of_text ht hw
  · rw [listingOf, hms.into, Option.bind_some, if_pos rfl]

/-- It is returned. -/
theorem listing_is_fetched_overloaded :
    (new ⟨[], 3⟩).fetchUTXOs (fun _ => none) [] overloaded = .ok [anEntry.utxo] := by
  have hvalue : Json.value 4 aListingText = some (.object aListing, []) := by decide +kernel
  obtain ⟨t, ht, htext, -⟩ := (Json.value_exact _ _ _ _).1 hvalue
  have hanswer : (overloaded 2).answer = .response 200 (t ++ []) none := by
    rw [← ht]
    rfl
  exact listing_is_fetched ⟨[], 3⟩ rfl (by decide) (by decide) transient_overloaded
    (htext.mono (by decide)) (List.forall_mem_nil _) hanswer (by rw [← ht]; decide +kernel) listing_anEntry

end TxGen.WoC
