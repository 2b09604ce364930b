import TxGen.Proof.Body
import TxGen.Proof.Script
import TxGen.Spec.Config

/-!
# What can be configured

`checks` lists the variables that are parsed. The reader reports each of them that is set to
something it must not be, and nothing else, so that a typo is never read as a default. What
it loads are the `Valid` configurations: each of them can be written as an environment,
with numbers in decimal and durations in nanoseconds.
-/

namespace TxGen.Env

open Lib

attribute [ext] Logs.Config

section

variable (getenv : String → Bytes) {α : Type} (parse : Bytes → Option α)
  (must : Requirement) (key : String) (dflt : α)

/-- The value that a variable is read as. -/
def value : α :=
  if string getenv key [] = [] then dflt else (parse (string getenv key [])).getD dflt

/-- The error of a variable, if there is one. -/
def error : List InvalidValue :=
  if string getenv key [] ≠ [] ∧ parse (string getenv key []) = none then
    [⟨key, string getenv key [], must⟩]
  else []

theorem run_parsed (errs : List InvalidValue) :
    (parsed getenv parse must key dflt).run errs =
      pure (value getenv parse key dflt, errs ++ error getenv parse must key) := by
  change parsed getenv parse must key dflt errs = (value getenv parse key dflt, errs ++ _)
  rw [parsed, value, error]
  by_cases hraw : string getenv key [] = []
  · simp [hraw]
  · cases hparse : parse (string getenv key []) with
    | none => simp [hraw]
    | some v => simp [hraw]

end

section

variable (getenv : String → Bytes)

/-- What the variables are read as. -/
def config : Logs.Config where
  adminToken := string getenv "ADMIN_TOKEN" []
  port := string getenv "PORT" (ascii "8080")
  statePath := string getenv "STATE_PATH" (ascii "./state.db")
  logLevel := value getenv (parseWord levels) "LOG_LEVEL" .info
  logFormat := value getenv (parseWord formats) "LOG_FORMAT" .json
  arcadeBaseURL := string getenv "ARCADE_BASE_URL" (ascii "https://arcade-v2-us-1.bsvblockchain.tech")
  arcadeCallbackToken := string getenv "ARCADE_CALLBACK_TOKEN" []
  wocBaseURL := string getenv "WOC_BASE_URL" (ascii "https://api.whatsonchain.com/v1/bsv/main")
  privateKey := string getenv "PRIVATE_KEY" []
  instanceID := string getenv "INSTANCE_ID" []
  environment := string getenv "ENVIRONMENT" (ascii "production")
  numChains := value getenv parsePositiveInt "NUM_CHAINS" 10000
  fanoutSize := value getenv parsePositiveInt "FANOUT_SIZE" 100
  sustainFee := value getenv parsePositiveUint64 "SUSTAIN_FEE"
    (defaultSustainFee (string getenv "PRIVATE_KEY" []))
  maxTPS := value getenv parsePositiveInt "MAX_TPS" 10000
  broadcastConcurrency := value getenv parsePositiveInt "BROADCAST_CONCURRENCY" 64
  broadcastRetryMax := value getenv parsePositiveInt "BROADCAST_RETRY_MAX" 3
  httpTimeout := value getenv parsePositiveDuration "HTTP_TIMEOUT" (30 * 10 ^ 9)
  sseReconnectMin := value getenv parsePositiveDuration "SSE_RECONNECT_MIN"
    (value getenv parsePositiveDuration "SSE_RECONNECT_INITIAL" (10 ^ 9))
  sseReconnectMax := value getenv parsePositiveDuration "SSE_RECONNECT_MAX" (30 * 10 ^ 9)
  slackWebhookURL := string getenv "SLACK_WEBHOOK_URL" []
  slackChannel := string getenv "SLACK_CHANNEL" (ascii "#alerts")

/-- A variable that is parsed: what it must be, and whether a value is that. -/
structure Check where
  key : String
  must : Requirement
  accepts : Bytes → Bool

/-- The variables that are parsed, in order. -/
def checks : List Check :=
  [⟨"LOG_LEVEL", .oneOf ["debug", "info", "warn", "error"], fun raw => (parseWord levels raw).isSome⟩,
    ⟨"LOG_FORMAT", .oneOf ["json", "text"], fun raw => (parseWord formats raw).isSome⟩,
    ⟨"NUM_CHAINS", .positiveInteger, fun raw => (parsePositiveInt raw).isSome⟩,
    ⟨"FANOUT_SIZE", .positiveInteger, fun raw => (parsePositiveInt raw).isSome⟩,
    ⟨"SUSTAIN_FEE", .positiveInteger, fun raw => (parsePositiveUint64 raw).isSome⟩,
    ⟨"MAX_TPS", .positiveInteger, fun raw => (parsePositiveInt raw).isSome⟩,
    ⟨"BROADCAST_CONCURRENCY", .positiveInteger, fun raw => (parsePositiveInt raw).isSome⟩,
    ⟨"BROADCAST_RETRY_MAX", .positiveInteger, fun raw => (parsePositiveInt raw).isSome⟩,
    ⟨"HTTP_TIMEOUT", .positiveDuration, fun raw => (parsePositiveDuration raw).isSome⟩,
    ⟨"SSE_RECONNECT_INITIAL", .positiveDuration, fun raw => (parsePositiveDuration raw).isSome⟩,
    ⟨"SSE_RECONNECT_MIN", .positiveDuration, fun raw => (parsePositiveDuration raw).isSome⟩,
    ⟨"SSE_RECONNECT_MAX", .positiveDuration, fun raw => (parsePositiveDuration raw).isSome⟩]

/-- The error of a variable that is set to a value it must not have. -/
def Check.error (c : Check) : Option InvalidValue :=
  let raw := string getenv c.key []
  if raw ≠ [] ∧ c.accepts raw = false then some ⟨c.key, raw, c.must⟩ else none

theorem filterMap_checks {α : Type} (parse : Bytes → Option α) (must : Requirement)
    (key : String) (cs : List Check) :
    (⟨key, must, fun raw => (parse raw).isSome⟩ :: cs).filterMap (·.error getenv) =
      error getenv parse must key ++ cs.filterMap (·.error getenv) := by
  rw [List.filterMap_cons, Check.error, error]
  by_cases hraw : string getenv key [] = []
  · simp [hraw]
  · cases hparse : parse (string getenv key []) with
    | none => simp [hraw, hparse]
    | some v => simp [hparse]

theorem run_read : (read getenv).run [] = (config getenv, checks.filterMap (·.error getenv)) := by
  simp only [read, oneOf, positiveInt, positiveUint64, duration, StateT.run_bind, run_parsed,
    pure_bind, StateT.run_pure, checks, filterMap_checks, List.filterMap_nil, List.append_nil,
    List.nil_append, List.append_assoc]
  rfl

theorem load_eq_ok {c : Logs.Config} :
    load getenv = .ok c ↔ checks.filterMap (·.error getenv) = [] ∧ config getenv = c ∧
      c.adminToken ≠ [] ∧ c.instanceID ≠ [] := by
  rw [load, run_read]
  dsimp only
  split_ifs with herrs htoken hid
  · simp [herrs]
  · constructor
    · nofun
    · rintro ⟨-, rfl, hne, -⟩
      exact absurd htoken hne
  · constructor
    · nofun
    · rintro ⟨-, rfl, -, hne⟩
      exact absurd hid hne
  · constructor
    · intro h
      cases h
      exact ⟨not_not.1 herrs, rfl, htoken, hid⟩
    · rintro ⟨-, rfl, -⟩
      rfl

/-- **A typo is no default.** A variable that is parsed and is set has an accepted value. -/
theorem accepts_of_load {c : Logs.Config} (h : load getenv = .ok c) (check : Check)
    (hcheck : check ∈ checks) (hset : string getenv check.key [] ≠ []) :
    check.accepts (string getenv check.key []) = true := by
  have hnone := List.filterMap_eq_nil_iff.1 ((load_eq_ok getenv).1 h).1 check hcheck
  by_contra hrefused
  rw [Check.error, if_pos ⟨hset, Bool.eq_false_iff.2 hrefused⟩] at hnone
  cases hnone

theorem string_nil_eq (key : String) : string getenv key [] = Script.trimSpace (getenv key) := by
  rw [string]
  split_ifs with h
  · rfl
  · exact (not_not.1 h).symm

end

/-! ## Valid configurations -/

/-- A text without white space at its ends. -/
def Trimmed (b : Bytes) : Prop :=
  ∀ c, goIsSpace c = true → ¬encodeRune c <+: b ∧ ¬encodeRune c <:+ b

/-- Such a text that is not empty. -/
def IsText (b : Bytes) : Prop := b ≠ [] ∧ Trimmed b

/-- What can be configured: texts without white space at their ends, some of which may be
empty, and positive numbers that fit their types. -/
structure Valid (c : Logs.Config) : Prop where
  adminToken : IsText c.adminToken
  port : IsText c.port
  statePath : IsText c.statePath
  arcadeBaseURL : IsText c.arcadeBaseURL
  arcadeCallbackToken : Trimmed c.arcadeCallbackToken
  wocBaseURL : IsText c.wocBaseURL
  privateKey : Trimmed c.privateKey
  instanceID : IsText c.instanceID
  environment : IsText c.environment
  numChains : 0 < c.numChains ∧ c.numChains < 2 ^ 63
  fanoutSize : 0 < c.fanoutSize ∧ c.fanoutSize < 2 ^ 63
  sustainFee : 0 < c.sustainFee ∧ c.sustainFee < 2 ^ 64
  maxTPS : 0 < c.maxTPS ∧ c.maxTPS < 2 ^ 63
  broadcastConcurrency : 0 < c.broadcastConcurrency ∧ c.broadcastConcurrency < 2 ^ 63
  broadcastRetryMax : 0 < c.broadcastRetryMax ∧ c.broadcastRetryMax < 2 ^ 63
  httpTimeout : 0 < c.httpTimeout ∧ c.httpTimeout < 2 ^ 63
  sseReconnectMin : 0 < c.sseReconnectMin ∧ c.sseReconnectMin < 2 ^ 63
  sseReconnectMax : 0 < c.sseReconnectMax ∧ c.sseReconnectMax < 2 ^ 63
  slackWebhookURL : Trimmed c.slackWebhookURL
  slackChannel : IsText c.slackChannel

/-! ## What is loaded is valid -/

section

variable (getenv : String → Bytes) {α : Type} {P : α → Prop}

/-- A variable is read as its default or as what is parsed. -/
theorem value_of {parse : Bytes → Option α} {key : String} {dflt : α} (hdflt : P dflt)
    (hparse : ∀ raw v, parse raw = some v → P v) : P (value getenv parse key dflt) := by
  rw [value]
  split_ifs
  · exact hdflt
  · cases h : parse (string getenv key []) with
    | none => exact hdflt
    | some v => exact hparse _ v h

theorem trimSpace_eq_self {b : Bytes} (h : Trimmed b) : Script.trimSpace b = b :=
  Utf8.trim_eq_self (by decide) h

theorem trimmed_string {key : String} {dflt : Bytes} (hdflt : Trimmed dflt) :
    Trimmed (string getenv key dflt) := by
  rw [string]
  split_ifs
  · exact (Script.trimSpace_spec _).2
  · exact hdflt

theorem trimmed_nil : Trimmed [] := by
  intro c _
  rw [List.prefix_nil, List.suffix_nil]
  exact ⟨Script.encodeRune_ne_nil c, Script.encodeRune_ne_nil c⟩

theorem isText_string {key : String} {dflt : Bytes} (hdflt : IsText dflt) :
    IsText (string getenv key dflt) := by
  refine ⟨?_, trimmed_string getenv hdflt.2⟩
  rw [string]
  split_ifs with hv
  · exact hv
  · exact hdflt.1

theorem parsePositiveInt_bound {raw : Bytes} {v : ℤ} (h : parsePositiveInt raw = some v) :
    0 < v ∧ v < 2 ^ 63 := by
  obtain ⟨hatoi, hpos⟩ := Option.filter_eq_some_iff.1 h
  refine ⟨by simpa using hpos, ?_⟩
  cases raw with
  | nil => cases hatoi
  | cons b s =>
    rw [atoi] at hatoi
    obtain ⟨-, hrange⟩ := Option.filter_eq_some_iff.1 hatoi
    simp only [Bool.and_eq_true, decide_eq_true_eq] at hrange
    exact hrange.2

theorem parsePositiveUint64_bound {raw : Bytes} {v : ℕ}
    (h : parsePositiveUint64 raw = some v) : 0 < v ∧ v < 2 ^ 64 := by
  obtain ⟨hparse, hpos⟩ := Option.filter_eq_some_iff.1 h
  obtain ⟨-, hrange⟩ := Option.filter_eq_some_iff.1 hparse
  exact ⟨by simpa using hpos, by simpa using hrange⟩

theorem parsePositiveDuration_bound {raw : Bytes} {v : ℕ}
    (h : parsePositiveDuration raw = some v) : 0 < v ∧ v < 2 ^ 63 := by
  obtain ⟨d, hd, rfl⟩ := Option.map_eq_some_iff.1 h
  obtain ⟨hparse, hpos⟩ := Option.filter_eq_some_iff.1 hd
  have hbound := Duration.parse_lt hparse
  simp only [decide_eq_true_eq] at hpos
  omega

/-! ### ASCII -/

/-- ASCII that is not blank. -/
def Visible (s : Bytes) : Prop := ∀ b ∈ s, 0x20 < b.val ∧ b.val < 0x7f

theorem Visible.of_all {s : Bytes}
    (h : (s.all fun b => 0x20 < b.val ∧ b.val < 0x7f) = true) : Visible s :=
  fun b hb => of_decide_eq_true (List.all_eq_true.1 h b hb)

theorem toNat_ofNat_byte (b : Fin 256) : (Char.ofNat b.val).toNat = b.val := by
  have hvalid : b.val.isValidChar := .inl (by omega)
  rw [Char.ofNat, dif_pos hvalid]
  rfl

/-- White space has no encoding of visible bytes. -/
theorem not_visible_encodeRune {c : Char} (hc : goIsSpace c = true) : ¬Visible (encodeRune c) := by
  intro hvisible
  obtain ⟨b, hb, hcb⟩ := Utf8.exists_of_ascii fun b hb => (hvisible b hb).2.trans (by decide)
  have hrange := hvisible b hb
  rw [hcb, goIsSpace, toNat_ofNat_byte] at hc
  simp only [Bool.or_eq_true, Bool.and_eq_true, decide_eq_true_eq] at hc
  omega

theorem Visible.trimmed {s : Bytes} (h : Visible s) : Trimmed s := by
  intro c hc
  constructor
  · exact fun hpre => not_visible_encodeRune hc fun b hb => h b (hpre.subset hb)
  · exact fun hsuf => not_visible_encodeRune hc fun b hb => h b (hsuf.subset hb)

theorem Visible.isText {s : Bytes} (h : Visible s) (hne : s ≠ []) : IsText s := ⟨hne, h.trimmed⟩

/-- The defaults are texts. -/
theorem isText_defaults : ∀ s ∈ ["8080", "./state.db", "https://arcade-v2-us-1.bsvblockchain.tech",
    "https://api.whatsonchain.com/v1/bsv/main", "production", "#alerts"], IsText (ascii s) := by
  have hall : ∀ s ∈ ["8080", "./state.db", "https://arcade-v2-us-1.bsvblockchain.tech",
      "https://api.whatsonchain.com/v1/bsv/main", "production", "#alerts"],
      ascii s ≠ [] ∧ ((ascii s).all fun b => 0x20 < b.val ∧ b.val < 0x7f) = true := by
    decide +kernel
  exact fun s hs => (Visible.of_all (hall s hs).2).isText (hall s hs).1

/-- **What is loaded is valid.** -/
theorem valid_of_load {getenv : String → Bytes} {c : Logs.Config} (h : load getenv = .ok c) :
    Valid c := by
  obtain ⟨-, rfl, htoken, hid⟩ := (load_eq_ok getenv).1 h
  have hint {key : String} {dflt : ℤ} (hdflt : 0 < dflt ∧ dflt < 2 ^ 63) :
      0 < value getenv parsePositiveInt key dflt ∧
        value getenv parsePositiveInt key dflt < 2 ^ 63 :=
    value_of (P := fun v : ℤ => 0 < v ∧ v < 2 ^ 63) getenv hdflt fun _ _ => parsePositiveInt_bound
  have hduration {key : String} {dflt : ℕ} (hdflt : 0 < dflt ∧ dflt < 2 ^ 63) :
      0 < value getenv parsePositiveDuration key dflt ∧
        value getenv parsePositiveDuration key dflt < 2 ^ 63 :=
    value_of (P := fun v : ℕ => 0 < v ∧ v < 2 ^ 63) getenv hdflt fun _ _ => parsePositiveDuration_bound
  have hfee : 0 < defaultSustainFee (string getenv "PRIVATE_KEY" []) ∧
      defaultSustainFee (string getenv "PRIVATE_KEY" []) < 2 ^ 64 := by
    rw [defaultSustainFee]
    split_ifs <;> decide
  exact {
    adminToken := ⟨htoken, trimmed_string getenv trimmed_nil⟩
    port := isText_string getenv (isText_defaults _ (by simp))
    statePath := isText_string getenv (isText_defaults _ (by simp))
    arcadeBaseURL := isText_string getenv (isText_defaults _ (by simp))
    arcadeCallbackToken := trimmed_string getenv trimmed_nil
    wocBaseURL := isText_string getenv (isText_defaults _ (by simp))
    privateKey := trimmed_string getenv trimmed_nil
    instanceID := ⟨hid, trimmed_string getenv trimmed_nil⟩
    environment := isText_string getenv (isText_defaults _ (by simp))
    numChains := hint (by decide)
    fanoutSize := hint (by decide)
    sustainFee := value_of (P := fun v : ℕ => 0 < v ∧ v < 2 ^ 64) getenv hfee fun _ _ => parsePositiveUint64_bound
    maxTPS := hint (by decide)
    broadcastConcurrency := hint (by decide)
    broadcastRetryMax := hint (by decide)
    httpTimeout := hduration (by decide)
    sseReconnectMin := hduration (hduration (by decide))
    sseReconnectMax := hduration (by decide)
    slackWebhookURL := trimmed_string getenv trimmed_nil
    slackChannel := isText_string getenv (isText_defaults _ (by simp)) }

end

/-! ## What is valid can be loaded -/

/-- The text of a duration, in nanoseconds. -/
def nanoseconds (d : ℕ) : Bytes := appendUint d ++ [0x6e, 0x73]

def levelWord : Logs.Level → String
  | .debug => "debug"
  | .info => "info"
  | .warn => "warn"
  | .error => "error"

def formatWord : Logs.Format → String
  | .json => "json"
  | .text => "text"

/-- The variables to set for a configuration. -/
def settings (c : Logs.Config) : List (String × Bytes) :=
  [("PRIVATE_KEY", c.privateKey), ("ADMIN_TOKEN", c.adminToken),
    ("PORT", c.port), ("STATE_PATH", c.statePath),
    ("LOG_LEVEL", ascii (levelWord c.logLevel)), ("LOG_FORMAT", ascii (formatWord c.logFormat)),
    ("ARCADE_BASE_URL", c.arcadeBaseURL),
    ("ARCADE_CALLBACK_TOKEN", c.arcadeCallbackToken),
    ("WOC_BASE_URL", c.wocBaseURL), ("INSTANCE_ID", c.instanceID),
    ("ENVIRONMENT", c.environment), ("NUM_CHAINS", appendUint c.numChains.toNat),
    ("FANOUT_SIZE", appendUint c.fanoutSize.toNat), ("SUSTAIN_FEE", appendUint c.sustainFee),
    ("MAX_TPS", appendUint c.maxTPS.toNat),
    ("BROADCAST_CONCURRENCY", appendUint c.broadcastConcurrency.toNat),
    ("BROADCAST_RETRY_MAX", appendUint c.broadcastRetryMax.toNat),
    ("HTTP_TIMEOUT", nanoseconds c.httpTimeout),
    ("SSE_RECONNECT_MIN", nanoseconds c.sseReconnectMin),
    ("SSE_RECONNECT_MAX", nanoseconds c.sseReconnectMax),
    ("SLACK_WEBHOOK_URL", c.slackWebhookURL),
    ("SLACK_CHANNEL", c.slackChannel)]

/-- The environment in which they are set, and nothing else. -/
def environ (c : Logs.Config) (key : String) : Bytes := ((settings c).lookup key).getD []

/-! ### Texts -/

section

variable {getenv : String → Bytes} {key : String} {dflt s : Bytes}

theorem string_of_isText (hget : getenv key = s) (hs : IsText s) : string getenv key dflt = s := by
  rw [string, hget, trimSpace_eq_self hs.2]
  exact if_pos hs.1

theorem string_of_trimmed (hget : getenv key = s) (hs : Trimmed s) : string getenv key [] = s := by
  rw [string_nil_eq, hget, trimSpace_eq_self hs]

end

/-! ### Variables that are parsed -/

/-- A variable is set to a value that is parsed as `v`. -/
def Gives (getenv : String → Bytes) {α : Type} (parse : Bytes → Option α) (key : String)
    (v : α) : Prop :=
  string getenv key [] ≠ [] ∧ parse (string getenv key []) = some v

section

variable {getenv : String → Bytes} {α : Type} {parse : Bytes → Option α} {key : String}
  {v : α}

theorem Gives.of_visible {s : Bytes} (hget : getenv key = s) (hne : s ≠ []) (hs : Visible s)
    (hparse : parse s = some v) : Gives getenv parse key v := by
  have hstring : string getenv key [] = s := string_of_trimmed hget hs.trimmed
  exact ⟨by rwa [hstring], by rwa [hstring]⟩

theorem Gives.value_eq (h : Gives getenv parse key v) (dflt : α) :
    value getenv parse key dflt = v := by
  rw [value, if_neg h.1, h.2, Option.getD_some]

theorem Gives.error_eq (h : Gives getenv parse key v) (must : Requirement) :
    error getenv parse must key = [] :=
  if_neg fun hnone => by
    rw [h.2] at hnone
    cases hnone.2

theorem error_of_unset (h : getenv key = []) (must : Requirement) :
    error getenv parse must key = [] := by
  exact if_neg fun hset => hset.1 (string_of_trimmed h trimmed_nil)

end

/-! ### Numbers and words -/

theorem visible_appendUint (n : ℕ) : Visible (appendUint n) := by
  intro b hb
  have hdigit := digit_of_mem_appendUint hb
  omega

theorem atoi_appendUint {n : ℕ} (h : n < 2 ^ 63) : atoi (appendUint n) = some (n : ℤ) := by
  have hint := intLiteral_appendUint n
  cases happ : appendUint n with
  | nil => exact absurd happ (appendUint_ne_nil n)
  | cons b l =>
    have hplus : b ≠ 0x2b := by
      rintro rfl
      have hdigit : (0x2b : Fin 256) ∈ appendUint n := by
        rw [happ]
        exact List.mem_cons_self
      cases isDigit_of_mem_appendUint hdigit
    rw [happ] at hint
    rw [atoi, if_neg hplus, hint, Option.filter_eq_some_iff]
    refine ⟨rfl, ?_⟩
    simp only [Bool.and_eq_true, decide_eq_true_eq]
    omega

theorem parsePositiveInt_appendUint {n : ℤ} (h : 0 < n ∧ n < 2 ^ 63) :
    parsePositiveInt (appendUint n.toNat) = some n := by
  obtain ⟨k, rfl⟩ := Int.eq_ofNat_of_zero_le h.1.le
  rw [parsePositiveInt, Int.toNat_natCast, atoi_appendUint (by omega), Option.filter_eq_some_iff]
  exact ⟨rfl, decide_eq_true h.1⟩

theorem parsePositiveUint64_appendUint {n : ℕ} (h : 0 < n ∧ n < 2 ^ 64) :
    parsePositiveUint64 (appendUint n) = some n := by
  have hunsigned : unsigned 64 (appendUint n) = some n := by
    rw [unsigned, natLiteral_appendUint, Option.filter_eq_some_iff]
    exact ⟨rfl, decide_eq_true h.2⟩
  rw [parsePositiveUint64, hunsigned, Option.filter_eq_some_iff]
  exact ⟨rfl, decide_eq_true h.1⟩

theorem visible_nanoseconds (d : ℕ) : Visible (nanoseconds d) := by
  intro b hb
  rcases List.mem_append.1 hb with hb | hb
  · exact visible_appendUint d b hb
  · have hns : b = 0x6e ∨ b = 0x73 := by simpa using hb
    rcases hns with rfl | rfl <;> decide

theorem parsePositiveDuration_nanoseconds {d : ℕ} (h : 0 < d ∧ d < 2 ^ 63) :
    parsePositiveDuration (nanoseconds d) = some d := by
  have hvalue : Json.digitsValue (appendUint d) * 1 = d := by
    rw [Nat.mul_one, readUint_eq_digitsValue, readUint_appendUint]
  have hparse : Duration.parse (nanoseconds d) = some (d : ℤ) := by
    have hunit : Duration.unitOf [0x6e, 0x73] = some 1 := rfl
    have hletters : ∀ b ∈ [0x6e, 0x73], Duration.begins b = false := by
      rw [List.forall_mem_cons, List.forall_mem_singleton]
      exact ⟨rfl, rfl⟩
    rw [nanoseconds, Duration.parse_append (appendUint_ne_nil d)
      (fun b hb => isDigit_of_mem_appendUint hb) hunit hletters Nat.one_pos
      (by rw [hvalue]; exact h.2), hvalue]
  have hpos : (0 : ℤ) < d := Int.natCast_pos.2 h.1
  rw [parsePositiveDuration, hparse, Option.filter_some, decide_eq_true hpos, if_pos rfl,
    Option.map_some, Int.toNat_natCast]

theorem levelWord_read (l : Logs.Level) : ascii (levelWord l) ≠ [] ∧ Visible (ascii (levelWord l)) ∧
    parseWord levels (ascii (levelWord l)) = some l := by
  refine ⟨?_, .of_all ?_, ?_⟩ <;> cases l <;> decide +kernel

theorem formatWord_read (f : Logs.Format) : ascii (formatWord f) ≠ [] ∧
    Visible (ascii (formatWord f)) ∧ parseWord formats (ascii (formatWord f)) = some f := by
  refine ⟨?_, .of_all ?_, ?_⟩ <;> cases f <;> decide +kernel

/-! ### The whole configuration -/

section

variable (c : Logs.Config)

theorem gives_level : Gives (environ c) (parseWord levels) "LOG_LEVEL" c.logLevel := by
  obtain ⟨hne, hvisible, hparse⟩ := levelWord_read c.logLevel
  exact .of_visible rfl hne hvisible hparse

theorem gives_format : Gives (environ c) (parseWord formats) "LOG_FORMAT" c.logFormat := by
  obtain ⟨hne, hvisible, hparse⟩ := formatWord_read c.logFormat
  exact .of_visible rfl hne hvisible hparse

variable {c} {key : String}

theorem gives_int {n : ℤ} (hget : environ c key = appendUint n.toNat) (hn : 0 < n ∧ n < 2 ^ 63) :
    Gives (environ c) parsePositiveInt key n :=
  .of_visible hget (appendUint_ne_nil _) (visible_appendUint _) (parsePositiveInt_appendUint hn)

theorem gives_uint64 {n : ℕ} (hget : environ c key = appendUint n) (hn : 0 < n ∧ n < 2 ^ 64) :
    Gives (environ c) parsePositiveUint64 key n :=
  .of_visible hget (appendUint_ne_nil _) (visible_appendUint _) (parsePositiveUint64_appendUint hn)

theorem gives_duration {d : ℕ} (hget : environ c key = nanoseconds d) (hd : 0 < d ∧ d < 2 ^ 63) :
    Gives (environ c) parsePositiveDuration key d :=
  .of_visible hget (by simp [nanoseconds]) (visible_nanoseconds _)
    (parsePositiveDuration_nanoseconds hd)

theorem load_environ (h : Valid c) : load (environ c) = .ok c := by
  have hchains : Gives (environ c) parsePositiveInt "NUM_CHAINS" c.numChains :=
    gives_int rfl h.numChains
  have hfanout : Gives (environ c) parsePositiveInt "FANOUT_SIZE" c.fanoutSize :=
    gives_int rfl h.fanoutSize
  have hfee : Gives (environ c) parsePositiveUint64 "SUSTAIN_FEE" c.sustainFee :=
    gives_uint64 rfl h.sustainFee
  have htps : Gives (environ c) parsePositiveInt "MAX_TPS" c.maxTPS := gives_int rfl h.maxTPS
  have hconcurrency :
      Gives (environ c) parsePositiveInt "BROADCAST_CONCURRENCY" c.broadcastConcurrency :=
    gives_int rfl h.broadcastConcurrency
  have hretry : Gives (environ c) parsePositiveInt "BROADCAST_RETRY_MAX" c.broadcastRetryMax :=
    gives_int rfl h.broadcastRetryMax
  have htimeout : Gives (environ c) parsePositiveDuration "HTTP_TIMEOUT" c.httpTimeout :=
    gives_duration rfl h.httpTimeout
  have hmin : Gives (environ c) parsePositiveDuration "SSE_RECONNECT_MIN" c.sseReconnectMin :=
    gives_duration rfl h.sseReconnectMin
  have hmax : Gives (environ c) parsePositiveDuration "SSE_RECONNECT_MAX" c.sseReconnectMax :=
    gives_duration rfl h.sseReconnectMax
  refine (load_eq_ok _).2 ⟨?_, ?_, h.adminToken.1, h.instanceID.1⟩
  · -- the older name of a variable is not set, and all others are parsed
    have hinitial : error (environ c) parsePositiveDuration .positiveDuration
        "SSE_RECONNECT_INITIAL" = [] := error_of_unset rfl _
    simp only [checks, filterMap_checks, (gives_level c).error_eq, (gives_format c).error_eq,
      hchains.error_eq, hfanout.error_eq, hfee.error_eq, htps.error_eq, hconcurrency.error_eq,
      hretry.error_eq, htimeout.error_eq, hinitial, hmin.error_eq, hmax.error_eq,
      List.nil_append, List.filterMap_nil]
  · rw [Logs.Config.ext_iff, config]
    dsimp only
    exact ⟨string_of_isText rfl h.adminToken, string_of_isText rfl h.port,
      string_of_isText rfl h.statePath, (gives_level c).value_eq _,
      (gives_format c).value_eq _, string_of_isText rfl h.arcadeBaseURL,
      string_of_trimmed rfl h.arcadeCallbackToken,
      string_of_isText rfl h.wocBaseURL, string_of_trimmed rfl h.privateKey,
      string_of_isText rfl h.instanceID,
      string_of_isText rfl h.environment,
      hchains.value_eq _, hfanout.value_eq _, hfee.value_eq _, htps.value_eq _,
      hconcurrency.value_eq _, hretry.value_eq _, htimeout.value_eq _, hmin.value_eq _,
      hmax.value_eq _, string_of_trimmed rfl h.slackWebhookURL,
      string_of_isText rfl h.slackChannel⟩

end

/-- **What is loaded are the valid configurations.** -/
theorem loadable_iff (c : Logs.Config) : (∃ getenv, load getenv = .ok c) ↔ Valid c := by
  constructor
  · rintro ⟨getenv, h⟩
    exact valid_of_load h
  · intro h
    exact ⟨environ c, load_environ h⟩

/-- **Every error is reported.** Those of the variables come in order, and before what is
missing. -/
theorem load_reports_every_error (getenv : String → Bytes) (errs : List InvalidValue) :
    load getenv = .error (.invalid errs) ↔
      errs ≠ [] ∧ errs = checks.filterMap (·.error getenv) := by
  rw [load, run_read]
  dsimp only
  split_ifs with herrs htoken hid
  · constructor
    · intro h
      cases h
      exact ⟨herrs, rfl⟩
    · rintro ⟨-, rfl⟩
      rfl
  all_goals
    rw [not_not] at herrs
    constructor
    · nofun
    · rintro ⟨hne, rfl⟩
      exact absurd herrs hne

end TxGen.Env
