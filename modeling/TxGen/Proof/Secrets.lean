import TxGen.Lib.Lockstep
import TxGen.Proof.Notifier
import TxGen.Spec.Logs

/-!
# Secrets and the log

Two processes whose configurations differ in the values of secrets only, and that meet
the same network, make corresponding log entries. `Redacted` hides the secrets of the
configuration itself. What it does not reach are the errors of `net/http`, which name
the URL of the request: that of the transaction events has the callback token in its
query, and the webhook of Slack is a secret as a whole.

`Pair` says how the entries correspond, `entries_pair` that they do over whole runs, and
`Pair.shown_eq_iff` when two of them are written alike. `hides_streamLoops` says of which
passes that is so: a request that fails before there is a response shows the secret in
its URL, and no other does.
-/

namespace TxGen.Logs

open Lib

variable {lib : Library} {c₁ c₂ : Config}

/-! ## Escaped texts -/

/-- The value of an upper-case hexadecimal digit. -/
def hexValue (d : Fin 256) : ℕ := if d < 58 then d - 48 else d - 55

/-- The byte at the front of an escaped text. -/
def unescape : Bytes → Option (Fin 256 × Bytes)
  | [] => none
  | b :: x =>
    if b = 43 then some (32, x)
    else if b = 37 then
      match x with
      | hi :: lo :: y => some (Fin.ofNat 256 (16 * hexValue hi + hexValue lo), y)
      | _ => none
    else some (b, x)

theorem ne_of_unreserved : ∀ b : Fin 256, unreserved b = true → b ≠ 43 ∧ b ≠ 37 := by
  decide +kernel

theorem hexValue_hexDigit : ∀ b : Fin 256,
    Fin.ofNat 256 (16 * hexValue (hexDigit (b.val / 16)) + hexValue (hexDigit (b.val % 16))) = b := by
  decide +kernel

theorem unescape_escapeByte (b : Fin 256) (x : Bytes) :
    unescape (escapeByte b ++ x) = some (b, x) := by
  unfold escapeByte
  split
  case isTrue hb =>
    rw [hb]
    rfl
  case isFalse =>
    split
    case isTrue hb =>
      -- kept as it is, and neither of the two marks
      obtain ⟨hplus, hpercent⟩ := ne_of_unreserved b hb
      simp only [unescape, List.cons_append, List.nil_append, if_neg hplus, if_neg hpercent]
    case isFalse =>
      have hb := hexValue_hexDigit b
      simp only [unescape, List.cons_append, List.nil_append, hb]
      rfl

theorem escapeByte_ne_nil (b : Fin 256) : escapeByte b ≠ [] := by
  unfold escapeByte
  split
  · exact List.cons_ne_nil _ _
  · split <;> exact List.cons_ne_nil _ _

theorem queryEscape_injective : Function.Injective queryEscape :=
  (SelfDelimiting.of_decode unescape unescape_escapeByte).flatMap_injective escapeByte_ne_nil

/-! ## The configurations -/

theorem redact_congr {a b : Bytes} (h : a = [] ↔ b = []) : redact a = redact b := by
  simp only [redact, h]

/-- The configurations differ in the values of secrets that are set, if at all, and the
private keys have the same lock script. -/
structure SameButSecrets (lib : Library) (c₁ c₂ : Config) : Prop where
  others : { c₁ with
    adminToken := c₂.adminToken
    privateKey := c₂.privateKey
    arcadeCallbackToken := c₂.arcadeCallbackToken
    slackWebhookURL := c₂.slackWebhookURL } = c₂
  adminToken : c₁.adminToken = [] ↔ c₂.adminToken = []
  privateKey : c₁.privateKey = [] ↔ c₂.privateKey = []
  arcadeCallbackToken : c₁.arcadeCallbackToken = [] ↔ c₂.arcadeCallbackToken = []
  slackWebhookURL : c₁.slackWebhookURL = [] ↔ c₂.slackWebhookURL = []
  lockScript : lib.lockScript c₁.privateKey = lib.lockScript c₂.privateKey

namespace SameButSecrets

theorem redacted (h : SameButSecrets lib c₁ c₂) : c₁.redacted = c₂.redacted := by
  have hothers := congrArg (fun c : Config => { c with
    adminToken := redact c₂.adminToken
    privateKey := redact c₂.privateKey
    arcadeCallbackToken := redact c₂.arcadeCallbackToken
    slackWebhookURL := redact c₂.slackWebhookURL }) h.others
  rw [Config.redacted, redact_congr h.adminToken, redact_congr h.privateKey,
    redact_congr h.arcadeCallbackToken, redact_congr h.slackWebhookURL]
  exact hothers

/-- Setting the bootstrap parameters keeps them alike, so `/status` serves the same. -/
theorem status (h : SameButSecrets lib c₁ c₂) (numChains fanoutSize : ℤ) (sustainFee : ℕ) :
    c₁.status numChains fanoutSize sustainFee = c₂.status numChains fanoutSize sustainFee := by
  have hothers := congrArg (fun c : Config => { c with numChains, fanoutSize, sustainFee }) h.others
  exact redacted ⟨hothers, h.adminToken, h.privateKey, h.arcadeCallbackToken, h.slackWebhookURL,
    h.lockScript⟩

/-- What is read off the other fields is the same. -/
theorem read {α : Type} (h : SameButSecrets lib c₁ c₂) (f : Config → α) :
    f { c₁ with
      adminToken := c₂.adminToken
      privateKey := c₂.privateKey
      arcadeCallbackToken := c₂.arcadeCallbackToken
      slackWebhookURL := c₂.slackWebhookURL } = f c₂ := congrArg f h.others

theorem logLevel (h : SameButSecrets lib c₁ c₂) : c₁.logLevel = c₂.logLevel :=
  h.read Config.logLevel

theorem streamPath (h : SameButSecrets lib c₁ c₂) (st : StreamName) :
    c₁.streamPath st = c₂.streamPath st := by
  have hbase : c₁.streamBase = c₂.streamBase := h.read Config.streamBase
  cases st <;> simp only [Config.streamPath, hbase]

theorem streamURL_eq_iff (h : SameButSecrets lib c₁ c₂) (st : StreamName) :
    c₁.streamURL st = c₂.streamURL st ↔
      (st = .arcadeTx → c₁.arcadeCallbackToken = c₂.arcadeCallbackToken) := by
  rw [Config.streamURL, Config.streamURL, h.streamPath st, List.append_cancel_left_eq]
  by_cases hst : st = .arcadeTx
  · rw [if_pos hst, if_pos hst, queryEscape_injective.eq_iff]
    exact ⟨fun heq _ => heq, fun himp => himp hst⟩
  · rw [if_neg hst, if_neg hst]
    exact ⟨fun _ heq => absurd heq hst, fun _ => rfl⟩

theorem reconnectIn (h : SameButSecrets lib c₁ c₂) : c₁.reconnectIn = c₂.reconnectIn :=
  h.read Config.reconnectIn

theorem subscriber (h : SameButSecrets lib c₁ c₂) : c₁.subscriber = c₂.subscriber :=
  h.read Config.subscriber

theorem newMode (h : SameButSecrets lib c₁ c₂) : newMode lib c₁ = newMode lib c₂ := by
  have hinstance : c₁.instanceID = c₂.instanceID := h.read Config.instanceID
  have hfee : c₁.sustainFee = c₂.sustainFee := h.read Config.sustainFee
  simp only [Logs.newMode, h.privateKey, h.lockScript, hinstance, hfee]

theorem startup (h : SameButSecrets lib c₁ c₂) (s : Startup) :
    startup lib c₁ s = startup lib c₂ s := by
  simp only [Logs.startup, h.newMode]

end SameButSecrets

/-! ## The secret an entry names -/

/-- The errors of `net/http` before there is a response name the URL. -/
def StreamError.namesURL : StreamError → Bool
  | .request _ | .connect _ => true
  | .status _ | .read _ | .eof => false

def PostError.namesURL : PostError → Bool
  | .build _ | .post _ => true
  | .status _ => false

/-- The secret in the URL that the error of an entry names, if there is one. -/
def Entry.secret (c : Config) : Entry → Option Bytes
  | .disconnected st err _ =>
      if st = .arcadeTx ∧ err.namesURL = true then some c.arcadeCallbackToken else none
  | .slackFailed _ err => if err.namesURL = true then some c.slackWebhookURL else none
  | _ => none

theorem urlError_inj {op : String} {u₁ u₂ cause₁ cause₂ : Bytes}
    (h : lib.urlError op u₁ cause₁ = lib.urlError op u₂ cause₂) : u₁ = u₂ := by
  rw [Library.urlError, Library.urlError, List.append_cancel_left_eq,
    List.append_cancel_left_eq] at h
  exact (lib.quote_delimited _ _ _ _ h).1

theorem StreamError.text_eq_iff (st : StreamName) (err : StreamError) :
    err.text lib c₁ st = err.text lib c₂ st ↔
      (err.namesURL = true → c₁.streamURL st = c₂.streamURL st) := by
  cases err with
  | request cause =>
    simp only [text, namesURL, List.append_cancel_left_eq, forall_const]
    exact ⟨urlError_inj, fun h => by rw [h]⟩
  | connect cause =>
    simp only [text, namesURL, List.append_cancel_left_eq, forall_const]
    exact ⟨urlError_inj, fun h => by rw [h]⟩
  | status code => simp [text, namesURL]
  | read cause => simp [text, namesURL]
  | eof => simp [text, namesURL]

/-- The first letter of the text, which tells the errors apart. -/
def PostError.initial : PostError → Fin 256
  | .build _ => 98
  | .post _ => 112
  | .status _ => 115

theorem PostError.head?_text (c : Config) (err : PostError) :
    (err.text lib c).head? = some err.initial := by
  cases err <;> rfl

/-- An error that names the webhook has the text of no error of another webhook. -/
theorem PostError.webhook_eq {err₁ err₂ : PostError} (h : err₁.text lib c₁ = err₂.text lib c₂)
    (hnames : err₁.namesURL = true ∨ err₂.namesURL = true) :
    c₁.slackWebhookURL = c₂.slackWebhookURL := by
  have hinitial : err₁.initial = err₂.initial := by
    have hhead := congrArg List.head? h
    rw [head?_text, head?_text] at hhead
    exact Option.some.inj hhead
  -- so both are of one kind
  cases err₁ <;> cases err₂ <;> simp only [initial, Fin.reduceEq] at hinitial
  · simp only [text, List.append_cancel_left_eq] at h
    exact urlError_inj h
  · simp only [text, List.append_cancel_left_eq] at h
    exact urlError_inj h
  · simp [namesURL] at hnames

theorem PostError.text_eq_iff (err : PostError) :
    err.text lib c₁ = err.text lib c₂ ↔
      (err.namesURL = true → c₁.slackWebhookURL = c₂.slackWebhookURL) := by
  refine ⟨fun h hnames => webhook_eq h (.inl hnames), fun h => ?_⟩
  cases err with
  | build cause => simp only [text, h rfl]
  | post cause => simp only [text, h rfl]
  | status code => rfl

/-! ## One entry under both configurations -/

theorem SameButSecrets.record_eq_iff (h : SameButSecrets lib c₁ c₂) (e : Entry) :
    e.record lib c₁ = e.record lib c₂ ↔ e.secret c₁ = e.secret c₂ := by
  cases e with
  | starting commit buildDate => simp [Entry.record, Entry.secret, h.redacted]
  | disconnected st err delay =>
    simp only [Entry.record, Entry.secret, Record.mk.injEq, List.cons.injEq, Prod.mk.injEq,
      Value.text.injEq, true_and, and_true, err.text_eq_iff st, h.streamURL_eq_iff st]
    split
    · rename_i hnames
      simp only [hnames, forall_const, Option.some.injEq]
    · rename_i hnames
      exact ⟨fun _ => rfl, fun _ hurl hst => absurd ⟨hst, hurl⟩ hnames⟩
  | slackFailed r err =>
    simp only [Entry.record, Entry.secret, Record.mk.injEq, List.cons.injEq, Prod.mk.injEq,
      Value.text.injEq, true_and, and_true, err.text_eq_iff]
    split
    · rename_i hnames
      simp only [hnames, forall_const, Option.some.injEq]
    · rename_i hnames
      exact ⟨fun _ => rfl, fun _ hurl => absurd hurl hnames⟩
  | _ => simp [Entry.record, Entry.secret]

theorem level_record (lib : Library) (c₁ c₂ : Config) (e : Entry) :
    (e.record lib c₁).level = (e.record lib c₂).level := by
  cases e <;> rfl

/-- What names a secret is a warning. -/
theorem level_of_secret {e : Entry} (he : e.secret c₁ ≠ e.secret c₂) :
    (e.record lib c₁).level = .warn := by
  cases e with
  | disconnected st err delay => rfl
  | slackFailed r err => rfl
  | _ => exact absurd rfl he

theorem Level.rank_le_warn {l : Level} : l.rank ≤ Level.warn.rank ↔ l ≠ .error := by
  cases l <;> decide

theorem SameButSecrets.shown_eq_iff (h : SameButSecrets lib c₁ c₂) (e : Entry) :
    e.shown lib c₁ = e.shown lib c₂ ↔ c₁.logLevel = .error ∨ e.secret c₁ = e.secret c₂ := by
  simp only [Entry.shown, ← h.logLevel, ← level_record lib c₁ c₂ e]
  by_cases hsecret : e.secret c₁ = e.secret c₂
  · simp only [(h.record_eq_iff e).2 hsecret, hsecret, or_true]
  · -- a warning, which only the level `error` hides
    simp only [level_of_secret hsecret, Level.rank_le_warn, hsecret, or_false]
    by_cases hlevel : c₁.logLevel = .error
    · simp [hlevel]
    · simpa [hlevel] using mt (h.record_eq_iff e).1 hsecret

/-! ## Entries that correspond -/

/-- The entries of the two processes: the same, or those of the same post to Slack. -/
inductive Pair (lib : Library) (c₁ c₂ : Config) : Entry → Entry → Prop
  | same (e : Entry) : Pair lib c₁ c₂ e e
  | slack (r : Reorg) (reply : PostReply) :
      Pair lib c₁ c₂ (slackEntry lib c₁ r reply) (slackEntry lib c₂ r reply)

theorem slackEntry_congr
    (h : lib.parseError c₁.slackWebhookURL = lib.parseError c₂.slackWebhookURL) (r : Reorg)
    (reply : PostReply) : slackEntry lib c₁ r reply = slackEntry lib c₂ r reply := by
  simp only [slackEntry, post, h]

theorem slackEntry_of_parseError {cause : Bytes}
    (h : lib.parseError c₁.slackWebhookURL = some cause) (r : Reorg) (reply : PostReply) :
    slackEntry lib c₁ r reply = .slackFailed r (.build cause) := by
  simp only [slackEntry, post, h]

theorem slackEntry_cases (lib : Library) (c : Config) (r : Reorg) (reply : PostReply) :
    (∃ err, slackEntry lib c r reply = .slackFailed r err) ∨
      slackEntry lib c r reply = .slackSent r := by
  unfold slackEntry
  split
  · exact .inl ⟨_, rfl⟩
  · exact .inr rfl

theorem level_slackEntry_le (lib : Library) (c : Config) (r : Reorg) (reply : PostReply) :
    ((slackEntry lib c r reply).record lib c).level.rank ≤ Level.warn.rank := by
  rcases slackEntry_cases lib c r reply with ⟨err, he⟩ | he
  · rw [he]
    exact Nat.le_refl 2
  · rw [he]
    exact Nat.zero_le 2

/-- A record that is written on one side is the record of the other. -/
theorem Entry.record_eq {e₁ e₂ : Entry}
    (hle : c₁.logLevel.rank ≤ (e₁.record lib c₁).level.rank)
    (h : e₁.shown lib c₁ = e₂.shown lib c₂) : e₁.record lib c₁ = e₂.record lib c₂ := by
  have hmem : e₁.record lib c₁ ∈ e₂.shown lib c₂ := by
    rw [← h, Entry.shown, if_pos hle]
    exact List.mem_singleton_self _
  rw [Entry.shown] at hmem
  split at hmem
  · exact List.mem_singleton.1 hmem
  · exact absurd hmem List.not_mem_nil

/-- Posts to different webhooks are written alike only if neither names its webhook. -/
theorem slackEntry_secret (hne : c₁.slackWebhookURL ≠ c₂.slackWebhookURL)
    (hlevel : c₁.logLevel ≠ .error) (heq : c₁.logLevel = c₂.logLevel) {r : Reorg}
    {reply : PostReply}
    (h : (slackEntry lib c₁ r reply).shown lib c₁ = (slackEntry lib c₂ r reply).shown lib c₂) :
    (slackEntry lib c₁ r reply).secret c₁ = (slackEntry lib c₁ r reply).secret c₂ ∧
      (slackEntry lib c₂ r reply).secret c₁ = (slackEntry lib c₂ r reply).secret c₂ := by
  have hwarn : c₁.logLevel.rank ≤ Level.warn.rank := Level.rank_le_warn.2 hlevel
  rcases slackEntry_cases lib c₁ r reply with ⟨err₁, he₁⟩ | he₁ <;>
    rcases slackEntry_cases lib c₂ r reply with ⟨err₂, he₂⟩ | he₂ <;>
    rw [he₁, he₂] at h ⊢
  · have hrecord := Entry.record_eq hwarn h
    simp only [Entry.record, Record.mk.injEq, List.cons.injEq, Prod.mk.injEq, Value.text.injEq,
      true_and, and_true] at hrecord
    have hnames := mt (PostError.webhook_eq hrecord) hne
    rw [not_or] at hnames
    simp only [Entry.secret, if_neg hnames.1, if_neg hnames.2, and_self]
  -- a failure is a warning, and a success is not
  · have hrecord := congrArg Record.level (Entry.record_eq hwarn h)
    simp [Entry.record] at hrecord
  · have hrecord := congrArg Record.level (Entry.record_eq (heq ▸ hwarn) h.symm)
    simp [Entry.record] at hrecord
  · exact ⟨rfl, rfl⟩

theorem Entry.shown_of_level {e : Entry} {c : Config}
    (he : (e.record lib c).level.rank ≤ Level.warn.rank) (hc : c.logLevel = .error) :
    e.shown lib c = [] := by
  have hlt : ¬ c.logLevel.rank ≤ (e.record lib c).level.rank := by
    rw [hc]
    intro hle
    exact absurd (hle.trans he) (by decide)
  exact if_neg hlt

/-- When two corresponding entries are written alike. -/
theorem Pair.shown_eq_iff (h : SameButSecrets lib c₁ c₂) {e₁ e₂ : Entry}
    (hp : Pair lib c₁ c₂ e₁ e₂) :
    e₁.shown lib c₁ = e₂.shown lib c₂ ↔ (c₁.logLevel = .error ∨ e₁.secret c₁ = e₁.secret c₂) ∧
      (c₁.logLevel = .error ∨ e₂.secret c₁ = e₂.secret c₂) := by
  rw [← or_and_left]
  cases hp with
  | same =>
    rw [and_self]
    exact h.shown_eq_iff _
  | slack r reply =>
    by_cases hlevel : c₁.logLevel = .error
    · have h₁ := Entry.shown_of_level (level_slackEntry_le lib c₁ r reply) hlevel
      have h₂ := Entry.shown_of_level (level_slackEntry_le lib c₂ r reply)
        (h.logLevel ▸ hlevel)
      rw [h₁, h₂]
      exact ⟨fun _ => .inl hlevel, fun _ => rfl⟩
    by_cases hw : c₁.slackWebhookURL = c₂.slackWebhookURL
    · have he : slackEntry lib c₁ r reply = slackEntry lib c₂ r reply :=
        slackEntry_congr (by rw [hw]) r reply
      rw [he, and_self]
      exact h.shown_eq_iff _
    · refine ⟨fun heq => .inr (slackEntry_secret hw hlevel h.logLevel heq), fun hor => ?_⟩
      obtain ⟨hs₁, hs₂⟩ := hor.resolve_left hlevel
      -- neither URL was refused, for then it would be named
      have hparsed : ∀ c : Config, (slackEntry lib c r reply).secret c₁ =
          (slackEntry lib c r reply).secret c₂ → lib.parseError c.slackWebhookURL = none := by
        intro c hc
        cases hcause : lib.parseError c.slackWebhookURL with
        | none => rfl
        | some cause =>
          rw [slackEntry_of_parseError hcause] at hc
          exact absurd (Option.some.inj hc) hw
      have he : slackEntry lib c₁ r reply = slackEntry lib c₂ r reply :=
        slackEntry_congr ((hparsed c₁ hs₁).trans (hparsed c₂ hs₂).symm) r reply
      rw [he]
      exact (h.shown_eq_iff _).2 (.inr hs₂)

theorem length_shown_le {e₁ e₂ : Entry} (hc : c₁.logLevel = c₂.logLevel)
    (he : (e₁.record lib c₁).level.rank ≤ (e₂.record lib c₂).level.rank) :
    (e₁.shown lib c₁).length ≤ (e₂.shown lib c₂).length := by
  simp only [Entry.shown, hc]
  split
  · rename_i hle
    rw [if_pos (hle.trans he)]
    exact Nat.le_refl _
  · exact Nat.zero_le _

/-- A webhook whose URL is refused always has something to warn of. -/
theorem Pair.level_le {cause : Bytes} (hparse : lib.parseError c₂.slackWebhookURL = some cause)
    {e₁ e₂ : Entry} (hp : Pair lib c₁ c₂ e₁ e₂) :
    (e₁.record lib c₁).level.rank ≤ (e₂.record lib c₂).level.rank := by
  cases hp with
  | same => rw [level_record lib c₁ c₂]
  | slack r reply =>
    rw [slackEntry_of_parseError hparse]
    exact level_slackEntry_le lib c₁ r reply

theorem Pair.symm {e₁ e₂ : Entry} (hp : Pair lib c₁ c₂ e₁ e₂) : Pair lib c₂ c₁ e₂ e₁ := by
  cases hp with
  | same => exact .same _
  | slack r reply => exact .slack r reply

/-- One of the processes never writes less of an entry than the other. -/
theorem Pair.length_le (hc : c₁.logLevel = c₂.logLevel) :
    (∀ e₁ e₂, Pair lib c₁ c₂ e₁ e₂ → (e₁.shown lib c₁).length ≤ (e₂.shown lib c₂).length) ∨
      ∀ e₁ e₂, Pair lib c₁ c₂ e₁ e₂ → (e₂.shown lib c₂).length ≤ (e₁.shown lib c₁).length := by
  cases h₁ : lib.parseError c₁.slackWebhookURL with
  | some cause => exact .inr fun e₁ e₂ hp => length_shown_le hc.symm (hp.symm.level_le h₁)
  | none =>
    refine .inl fun e₁ e₂ hp => length_shown_le hc ?_
    cases h₂ : lib.parseError c₂.slackWebhookURL with
    | some cause => exact hp.level_le h₂
    | none =>
      cases hp with
      | same => rw [level_record lib c₁ c₂]
      | slack r reply => rw [slackEntry_congr (h₁.trans h₂.symm), level_record lib c₁ c₂]

/-! ## Both processes, step by step -/

/-- The entries correspond, and what is remembered is the same. -/
def Lockstep {μ : Type} (lib : Library) (c₁ c₂ : Config) (x y : List Entry × μ) : Prop :=
  List.Forall₂ (Pair lib c₁ c₂) x.1 y.1 ∧ x.2 = y.2

theorem forall₂_pair_refl (log : List Entry) : List.Forall₂ (Pair lib c₁ c₂) log log :=
  List.forall₂_same.2 fun e _ => .same e

theorem SameButSecrets.reportReorg (h : SameButSecrets lib c₁ c₂) (last : Notifier.Last) (r : Reorg)
    (call : Call) :
    Lockstep lib c₁ c₂ (reportReorg lib c₁ last r call) (reportReorg lib c₂ last r call) := by
  simp only [Logs.reportReorg, h.slackWebhookURL]
  split
  · exact ⟨.nil, rfl⟩
  · split
    · exact ⟨.nil, rfl⟩
    · exact ⟨.cons (.slack r call.slack) .nil, rfl⟩

theorem SameButSecrets.handleAll (h : SameButSecrets lib c₁ c₂) (st : StreamName)
    (calls : ℕ → Call) (payloads : List Bytes) : ∀ (k : ℕ) (last : Notifier.Last),
    Lockstep lib c₁ c₂ (handleAll lib c₁ st calls k last payloads)
      (handleAll lib c₂ st calls k last payloads) := by
  induction payloads with
  | nil => exact fun _ _ => ⟨.nil, rfl⟩
  | cons data rest ih =>
    intro k last
    simp only [Logs.handleAll]
    cases (lib.handle st (calls k).now data).reorg with
    | none =>
      obtain ⟨hlater, hlast⟩ := ih (k + 1) last
      exact ⟨List.rel_append .nil (List.rel_append (forall₂_pair_refl _) hlater), hlast⟩
    | some r =>
      -- the notifier remembers the same, so the next event finds both alike
      obtain ⟨hreported, hnext⟩ := h.reportReorg last r (calls k)
      obtain ⟨hlater, hlast⟩ := ih (k + 1) (Logs.reportReorg lib c₁ last r (calls k)).2
      simp only [hnext] at hlater hlast ⊢
      exact ⟨List.rel_append hreported (List.rel_append (forall₂_pair_refl _) hlater), hlast⟩

theorem SameButSecrets.connect (h : SameButSecrets lib c₁ c₂) (st : StreamName)
    (last : Notifier.Last) (reply : Reply) :
    Lockstep lib c₁ c₂
      ((connect lib c₁ st last reply).entries, (connect lib c₁ st last reply).uptime,
        (connect lib c₁ st last reply).err, (connect lib c₁ st last reply).last)
      ((connect lib c₂ st last reply).entries, (connect lib c₂ st last reply).uptime,
        (connect lib c₂ st last reply).err, (connect lib c₂ st last reply).last) := by
  simp only [Logs.connect, h.streamPath]
  split
  · exact ⟨.nil, rfl⟩
  · split
    · exact ⟨.nil, rfl⟩
    · split
      · exact ⟨.nil, rfl⟩
      · rename_i chunks _ _ calls _
        obtain ⟨hhandled, hlast⟩ := h.handleAll st calls (SSE.connect chunks) 0 last
        refine ⟨.cons (.same _) hhandled, ?_⟩
        rw [hlast]

theorem SameButSecrets.streamLoop (h : SameButSecrets lib c₁ c₂) (m : Memory) (p : Pass) :
    Lockstep lib c₁ c₂ (streamLoop lib c₁ m p) (streamLoop lib c₂ m p) := by
  obtain ⟨hentries, hrest⟩ := h.connect p.stream m.last p.reply
  simp only [Prod.mk.injEq] at hrest
  obtain ⟨huptime, herr, hlast⟩ := hrest
  simp only [Logs.streamLoop, h.arcadeCallbackToken, h.reconnectIn, h.subscriber, huptime, herr,
    hlast]
  split
  · exact ⟨.nil, rfl⟩
  · exact ⟨List.rel_append hentries (.cons (.same _) .nil), rfl⟩

theorem SameButSecrets.streamLoops (h : SameButSecrets lib c₁ c₂) (ps : List Pass) :
    ∀ m : Memory,
      List.Forall₂ (Pair lib c₁ c₂) (streamLoops lib c₁ m ps) (streamLoops lib c₂ m ps) := by
  induction ps with
  | nil => exact fun _ => .nil
  | cons p ps ih =>
    intro m
    obtain ⟨hentries, hmemory⟩ := h.streamLoop m p
    simp only [Logs.streamLoops, hmemory]
    exact List.rel_append hentries (ih _)

/-- The entries of the two processes correspond one to one. -/
theorem SameButSecrets.entries_pair (h : SameButSecrets lib c₁ c₂) (s : Startup)
    (ps : List Pass) :
    List.Forall₂ (Pair lib c₁ c₂) (entries lib c₁ s ps) (entries lib c₂ s ps) := by
  simp only [entries, h.startup, h.arcadeCallbackToken]
  split
  · exact List.rel_append (forall₂_pair_refl _)
      (List.rel_append (forall₂_pair_refl _) (h.streamLoops ps _))
  · exact forall₂_pair_refl _

/-! ## What fails -/

/-- The request of a pass fails before there is a response: its URL is refused, or
`Client.Do` returns an error. -/
def Pass.fails (lib : Library) (c : Config) (p : Pass) : Bool :=
  (lib.parseError (c.streamPath p.stream)).isSome ||
    match p.reply with
    | .failed _ => true
    | .response .. => false

/-- A post to Slack fails before there is a response. -/
def PostReply.fails (lib : Library) (c : Config) (reply : PostReply) : Bool :=
  (lib.parseError c.slackWebhookURL).isSome ||
    match reply with
    | .failed _ => true
    | .status _ => false

/-- The reorgs in the payloads of a stream, with what their calls meet. -/
def reorgsIn (lib : Library) (st : StreamName) (calls : ℕ → Call) :
    ℕ → List Bytes → List (Reorg × Call)
  | _, [] => []
  | k, data :: rest =>
    ((lib.handle st (calls k).now data).reorg.map fun r => (r, calls k)).toList ++
      reorgsIn lib st calls (k + 1) rest

/-- The reorgs a pass brings. -/
def Pass.reorgs (lib : Library) (c : Config) (p : Pass) : List (Reorg × Call) :=
  if p.stream = .arcadeTx ∧ c.arcadeCallbackToken = [] then []
  else if (lib.parseError (c.streamPath p.stream)).isSome then []
  else
    match p.reply with
    | .failed _ => []
    | .response status chunks _ _ calls =>
      if status ≠ 200 then [] else reorgsIn lib p.stream calls 0 (SSE.connect chunks)

/-- `shouldSend` for a reorg. -/
def due (last : Notifier.Last) (x : Reorg × Call) : Bool × Notifier.Last :=
  Notifier.shouldSend x.2.order x.2.now (Notifier.reorgKey x.1.height) last

/-- The reorgs among `xs` that the notifier posts. -/
def posted (last : Notifier.Last) : List (Reorg × Call) → List (Reorg × Call)
  | [] => []
  | x :: xs => if (due last x).1 then x :: posted (due last x).2 xs else posted (due last x).2 xs

/-- What the notifier remembers after the reorgs `xs`. -/
def remembered (last : Notifier.Last) (xs : List (Reorg × Call)) : Notifier.Last :=
  xs.foldl (fun last x => (due last x).2) last

theorem posted_append (last : Notifier.Last) (xs ys : List (Reorg × Call)) :
    posted last (xs ++ ys) = posted last xs ++ posted (remembered last xs) ys := by
  induction xs generalizing last with
  | nil => rfl
  | cons x xs ih =>
    simp only [List.cons_append, posted, remembered, List.foldl_cons]
    split_ifs
    · rw [ih, List.cons_append]
      rfl
    · exact ih _

/-- No request that fails names a secret in which the configurations differ: the URL of
the transaction events has the callback token, that of a post is the webhook. -/
structure Hidden (lib : Library) (c₁ c₂ : Config) (ps : List Pass) : Prop where
  token : c₁.arcadeCallbackToken = c₂.arcadeCallbackToken ∨
    ∀ p ∈ ps, p.stream = .arcadeTx → p.fails lib c₁ = false
  webhook : c₁.slackWebhookURL = c₂.slackWebhookURL ∨
    ∀ x ∈ posted Bucket.empty (ps.flatMap (Pass.reorgs lib c₁)),
      x.2.slack.fails lib c₁ = false ∧ x.2.slack.fails lib c₂ = false

section Hides

variable (c₁ c₂) in
/-- The entries name no secret in which the configurations differ. -/
def Hides (log : List Entry) : Prop := ∀ e ∈ log, e.secret c₁ = e.secret c₂

theorem hides_append {log log' : List Entry} :
    Hides c₁ c₂ (log ++ log') ↔ Hides c₁ c₂ log ∧ Hides c₁ c₂ log' := List.forall_mem_append

theorem hides_cons {e : Entry} {log : List Entry} :
    Hides c₁ c₂ (e :: log) ↔ e.secret c₁ = e.secret c₂ ∧ Hides c₁ c₂ log := List.forall_mem_cons

theorem hides_nil : Hides c₁ c₂ [] := List.forall_mem_nil _

theorem hides_handled (rs : List Record) : Hides c₁ c₂ (rs.map .handled) := by
  intro e he
  obtain ⟨r, -, rfl⟩ := List.mem_map.1 he
  rfl

variable {c : Config} (lib)

theorem hides_slackEntry (r : Reorg) (reply : PostReply) :
    Hides c₁ c₂ [slackEntry lib c r reply] ↔
      (c₁.slackWebhookURL = c₂.slackWebhookURL ∨ reply.fails lib c = false) := by
  simp only [Hides, List.forall_mem_singleton, slackEntry, post, PostReply.fails]
  cases lib.parseError c.slackWebhookURL with
  | some cause => simp [Entry.secret, PostError.namesURL]
  | none =>
    cases reply with
    | failed cause => simp [Entry.secret, PostError.namesURL]
    | status code =>
      by_cases hcode : code / 100 = 2 <;> simp [hcode, Entry.secret, PostError.namesURL]

/-- What the notifier logs and remembers of one reorg. -/
theorem hides_reportReorg (hc : c₁.slackWebhookURL ≠ c₂.slackWebhookURL → c.slackWebhookURL ≠ [])
    (last : Notifier.Last) (r : Reorg) (call : Call) :
    (Hides c₁ c₂ (reportReorg lib c last r call).1 ↔ c₁.slackWebhookURL = c₂.slackWebhookURL ∨
        ∀ x ∈ posted last [(r, call)], x.2.slack.fails lib c = false) ∧
      (c.slackWebhookURL ≠ [] →
        (reportReorg lib c last r call).2 = remembered last [(r, call)]) := by
  have hdue : due last (r, call) =
      Notifier.shouldSend call.order call.now (Notifier.reorgKey r.height) last := rfl
  by_cases hw : c.slackWebhookURL = []
  · have heq := not_imp_comm.1 hc fun hne => hne hw
    simp [reportReorg, hw, heq, Hides]
  · simp only [reportReorg, if_neg hw, posted, remembered, List.foldl_cons, List.foldl_nil, hdue]
    rcases hsend : Notifier.shouldSend call.order call.now (Notifier.reorgKey r.height) last with
      ⟨_ | _, last'⟩
    · exact ⟨by simp [Hides], fun _ => rfl⟩
    · refine ⟨?_, fun _ => rfl⟩
      rw [hides_slackEntry]
      simp

theorem hides_handleAll (hc : c₁.slackWebhookURL ≠ c₂.slackWebhookURL → c.slackWebhookURL ≠ [])
    (st : StreamName) (calls : ℕ → Call) (payloads : List Bytes) :
    ∀ (k : ℕ) (last : Notifier.Last),
    (Hides c₁ c₂ (handleAll lib c st calls k last payloads).1 ↔
        c₁.slackWebhookURL = c₂.slackWebhookURL ∨
          ∀ x ∈ posted last (reorgsIn lib st calls k payloads), x.2.slack.fails lib c = false) ∧
      (c.slackWebhookURL ≠ [] → (handleAll lib c st calls k last payloads).2 =
        remembered last (reorgsIn lib st calls k payloads)) := by
  induction payloads with
  | nil =>
    intro k last
    exact ⟨by simp [handleAll, reorgsIn, posted, Hides], fun _ => rfl⟩
  | cons data rest ih =>
    intro k last
    have hrecords : Hides c₁ c₂ ((lib.handle st (calls k).now data).records.map .handled) :=
      hides_handled _
    simp only [handleAll, reorgsIn]
    cases (lib.handle st (calls k).now data).reorg with
    | none =>
      obtain ⟨hlog, hlast⟩ := ih (k + 1) last
      refine ⟨?_, hlast⟩
      rw [List.nil_append, hides_append, hlog]
      exact and_iff_right hrecords
    | some r =>
      obtain ⟨hreport, hnext⟩ := hides_reportReorg lib hc last r (calls k)
      obtain ⟨hlog, hlast⟩ := ih (k + 1) (reportReorg lib c last r (calls k)).2
      rw [Option.map_some, Option.toList_some, posted_append, List.forall_mem_append,
        hides_append, hides_append, and_iff_right hrecords, hreport, hlog]
      refine ⟨?_, fun hw => ?_⟩
      · by_cases heq : c₁.slackWebhookURL = c₂.slackWebhookURL
        · simp only [heq, true_or, and_self]
        · -- then there is a notifier, and it has remembered the reorg
          rw [hnext (hc heq), ← or_and_left]
      · rw [hlast hw, hnext hw]
        exact (List.foldl_append (f := fun last x => (due last x).2)).symm

/-- What `connect` logs and leaves to the notifier. -/
theorem hides_connect (hc : c₁.slackWebhookURL ≠ c₂.slackWebhookURL → c.slackWebhookURL ≠ [])
    {p : Pass} (hp : ¬ (p.stream = .arcadeTx ∧ c.arcadeCallbackToken = [])) (last : Notifier.Last) :
    (Hides c₁ c₂ (connect lib c p.stream last p.reply).entries ↔
        c₁.slackWebhookURL = c₂.slackWebhookURL ∨
          ∀ x ∈ posted last (p.reorgs lib c), x.2.slack.fails lib c = false) ∧
      (c.slackWebhookURL ≠ [] →
        (connect lib c p.stream last p.reply).last = remembered last (p.reorgs lib c)) := by
  simp only [connect, Pass.reorgs, if_neg hp]
  cases lib.parseError (c.streamPath p.stream) with
  | some cause => exact ⟨by simp [Hides, posted], fun _ => rfl⟩
  | none =>
    cases p.reply with
    | failed cause => exact ⟨by simp [Hides, posted], fun _ => rfl⟩
    | response status chunks readError uptime calls =>
      by_cases hstatus : status = 200
      · obtain ⟨hlog, hlast⟩ :=
          hides_handleAll lib hc p.stream calls (SSE.connect chunks) 0 last
        simp only [hstatus, ne_eq, not_true_eq_false, if_false, Option.isSome_none,
          Bool.false_eq_true]
        refine ⟨?_, hlast⟩
        rw [hides_cons, ← hlog]
        exact and_iff_right rfl
      · simp only [ne_eq, hstatus, not_false_eq_true, if_true, Option.isSome_none,
          Bool.false_eq_true, if_false]
        exact ⟨by simp [Hides, posted], fun _ => rfl⟩

theorem namesURL_connect (p : Pass) (last : Notifier.Last) :
    (connect lib c p.stream last p.reply).err.namesURL = p.fails lib c := by
  simp only [connect, Pass.fails]
  cases lib.parseError (c.streamPath p.stream) with
  | some cause => rfl
  | none =>
    cases p.reply with
    | failed cause => rfl
    | response status chunks readError uptime calls =>
      by_cases hstatus : status = 200
      · simp only [hstatus, ne_eq, not_true_eq_false, if_false]
        split_ifs
        · rfl
        · cases readError <;> rfl
      · simp only [ne_eq, hstatus, not_false_eq_true, if_true]
        rfl

/-- What a pass logs and leaves to the notifier. -/
theorem hides_streamLoop
    (ht : c₁.arcadeCallbackToken ≠ c₂.arcadeCallbackToken → c.arcadeCallbackToken ≠ [])
    (hc : c₁.slackWebhookURL ≠ c₂.slackWebhookURL → c.slackWebhookURL ≠ []) (m : Memory) (p : Pass) :
    (Hides c₁ c₂ (streamLoop lib c m p).1 ↔
        (c₁.arcadeCallbackToken = c₂.arcadeCallbackToken ∨
          (p.stream = .arcadeTx → p.fails lib c = false)) ∧
        (c₁.slackWebhookURL = c₂.slackWebhookURL ∨
          ∀ x ∈ posted m.last (p.reorgs lib c), x.2.slack.fails lib c = false)) ∧
      (c.slackWebhookURL ≠ [] →
        (streamLoop lib c m p).2.last = remembered m.last (p.reorgs lib c)) := by
  by_cases hp : p.stream = .arcadeTx ∧ c.arcadeCallbackToken = []
  · -- no loop for this stream, and no token that could differ
    have heq := not_imp_comm.1 ht fun hne => hne hp.2
    simp [streamLoop, Pass.reorgs, hp, heq, Hides, posted, remembered]
  · obtain ⟨hlog, hlast⟩ := hides_connect lib hc hp m.last
    simp only [streamLoop, if_neg hp]
    refine ⟨?_, hlast⟩
    rw [hides_append, hlog, and_comm]
    refine and_congr_left fun _ => ?_
    rw [Hides, List.forall_mem_singleton, Entry.secret, Entry.secret, namesURL_connect]
    cases hfails : p.fails lib c <;> by_cases hst : p.stream = .arcadeTx <;> simp [hst]

/-- The entries of the streams hide the secrets exactly when no request of the passes
that fails names one. -/
theorem hides_streamLoops
    (ht : c₁.arcadeCallbackToken ≠ c₂.arcadeCallbackToken → c.arcadeCallbackToken ≠ [])
    (hc : c₁.slackWebhookURL ≠ c₂.slackWebhookURL → c.slackWebhookURL ≠ []) (ps : List Pass) :
    ∀ m : Memory, Hides c₁ c₂ (streamLoops lib c m ps) ↔
      (c₁.arcadeCallbackToken = c₂.arcadeCallbackToken ∨
        ∀ p ∈ ps, p.stream = .arcadeTx → p.fails lib c = false) ∧
      (c₁.slackWebhookURL = c₂.slackWebhookURL ∨
        ∀ x ∈ posted m.last (ps.flatMap (Pass.reorgs lib c)), x.2.slack.fails lib c = false) := by
  induction ps with
  | nil => simp [streamLoops, Hides, posted]
  | cons p ps ih =>
    intro m
    obtain ⟨hlog, hlast⟩ := hides_streamLoop lib ht hc m p
    rw [streamLoops, hides_append, hlog, ih, List.flatMap_cons, posted_append,
      List.forall_mem_append, List.forall_mem_cons, or_and_left, and_and_and_comm]
    refine and_congr_right fun _ => ?_
    by_cases heq : c₁.slackWebhookURL = c₂.slackWebhookURL
    · simp only [heq, true_or, and_self]
    · rw [hlast (hc heq), ← or_and_left]

theorem hides_closeStore (s : Startup) (err : Bytes) :
    Hides c₁ c₂ [closeStore s, .stopped err] := by
  refine hides_cons.2 ⟨?_, hides_cons.2 ⟨rfl, hides_nil⟩⟩
  unfold closeStore
  split <;> rfl

theorem hides_fetchUTXOs (f : Fetch) : Hides c₁ c₂ (.fetching :: fetchUTXOs f) := by
  refine hides_cons.2 ⟨rfl, fun e he => ?_⟩
  obtain ⟨i, hi, rfl⟩ := List.mem_mapIdx.1 he
  rfl

theorem hides_openState (s : Startup) : Hides c₁ c₂ (openState s).1 := by
  have hone {e : Entry} (he : e.secret c₁ = e.secret c₂) : Hides c₁ c₂ [e] :=
    hides_cons.2 ⟨he, hides_nil⟩
  simp only [openState]
  split
  · exact hone rfl
  · exact hides_closeStore s _
  · -- `engine.New` adds the end of the process, or nothing
    split
    · exact hides_append.2 ⟨hone rfl, hides_closeStore s _⟩
    · exact hone rfl
  · rename_i f _
    split
    · exact hides_append.2 ⟨hides_fetchUTXOs f, hides_closeStore s _⟩
    · rename_i count _
      have hlog : Hides c₁ c₂ (.fetching :: fetchUTXOs f ++ [.loaded count]) :=
        hides_append.2 ⟨hides_fetchUTXOs f, hone rfl⟩
      split
      · exact hides_append.2 ⟨hlog, hides_closeStore s _⟩
      · exact hlog

theorem hides_startup (s : Startup) : Hides c₁ c₂ (startup lib c s).1 := by
  unfold startup
  split
  · exact hides_cons.2 ⟨rfl, hides_cons.2 ⟨rfl, hides_nil⟩⟩
  · exact hides_cons.2 ⟨rfl, hides_cons.2 ⟨rfl, hides_openState s⟩⟩

/-- The entries of a process hide the secrets when its streams are not started, or the
streams hide them. -/
theorem hides_entries (s : Startup) (ps : List Pass) :
    Hides c₁ c₂ (entries lib c s ps) ↔ (startup lib c s).2 = false ∨
      Hides c₁ c₂ (streamLoops lib c ⟨fun _ => 0, Bucket.empty⟩ ps) := by
  have hdisabled : Hides c₁ c₂ (if c.arcadeCallbackToken = [] then [.txStreamDisabled] else []) := by
    split
    · exact hides_cons.2 ⟨rfl, hides_nil⟩
    · exact hides_nil
  unfold entries
  cases hs : (startup lib c s).2 with
  | false => simpa [hs] using hides_startup lib s
  | true =>
    simp only [hs, if_true, Bool.true_eq_false, false_or, hides_append]
    rw [and_iff_right (hides_startup lib s), and_iff_right hdisabled]

end Hides

/-! ## The log -/

theorem SameButSecrets.fails (h : SameButSecrets lib c₁ c₂) (p : Pass) :
    p.fails lib c₁ = p.fails lib c₂ := by
  simp only [Pass.fails, h.streamPath]

theorem SameButSecrets.reorgs (h : SameButSecrets lib c₁ c₂) :
    Pass.reorgs lib c₁ = Pass.reorgs lib c₂ := by
  funext p
  simp only [Pass.reorgs, h.streamPath, h.arcadeCallbackToken]

/-- Both processes hide the secrets exactly when the configurations and the passes do. -/
theorem SameButSecrets.hides_iff (h : SameButSecrets lib c₁ c₂) (ps : List Pass) (m : Memory)
    (hm : m.last = Bucket.empty) :
    Hides c₁ c₂ (Logs.streamLoops lib c₁ m ps) ∧ Hides c₁ c₂ (Logs.streamLoops lib c₂ m ps) ↔
      Hidden lib c₁ c₂ ps := by
  have ht : c₁.arcadeCallbackToken ≠ c₂.arcadeCallbackToken → c₂.arcadeCallbackToken ≠ [] :=
    fun hne hnil => hne ((h.arcadeCallbackToken.2 hnil).trans hnil.symm)
  have hw : c₁.slackWebhookURL ≠ c₂.slackWebhookURL → c₂.slackWebhookURL ≠ [] :=
    fun hne hnil => hne ((h.slackWebhookURL.2 hnil).trans hnil.symm)
  rw [hides_streamLoops lib (fun hne => mt h.arcadeCallbackToken.1 (ht hne))
      (fun hne => mt h.slackWebhookURL.1 (hw hne)), hides_streamLoops lib ht hw]
  simp only [hm, ← h.fails, ← h.reorgs]
  constructor
  · rintro ⟨⟨htoken, hpost₁⟩, -, hpost₂⟩
    refine ⟨htoken, ?_⟩
    rcases hpost₁ with heq | hpost₁
    · exact .inl heq
    · exact hpost₂.imp_right fun hpost₂ x hx => ⟨hpost₁ x hx, hpost₂ x hx⟩
  · rintro ⟨htoken, hpost⟩
    exact ⟨⟨htoken, hpost.imp_right fun hpost x hx => (hpost x hx).1⟩, htoken,
      hpost.imp_right fun hpost x hx => (hpost x hx).2⟩

/-- **Secrets and the log.** Two processes whose configurations differ in the values of
secrets only, and that meet the same network, write the same log and serve the same
configuration exactly when their log has errors only, they end before the streams are
started, or no request of the passes fails at a URL with a secret in which they differ. -/
theorem secrets_hidden_iff (lib : Library) (c₁ c₂ : Config) (h : SameButSecrets lib c₁ c₂)
    (s : Startup) (ps : List Pass) :
    (logs lib c₁ s ps = logs lib c₂ s ps ∧
      ∀ numChains fanoutSize sustainFee,
        c₁.status numChains fanoutSize sustainFee = c₂.status numChains fanoutSize sustainFee) ↔
    c₁.logLevel = .error ∨ (startup lib c₁ s).2 = false ∨ Hidden lib c₁ c₂ ps := by
  have hlogs := flatMap_eq_iff (h.entries_pair s ps) (Pair.length_le h.logLevel)
    fun e₁ e₂ hp => hp.shown_eq_iff h
  have hentries : Hides c₁ c₂ (entries lib c₁ s ps) ∧ Hides c₁ c₂ (entries lib c₂ s ps) ↔
      (startup lib c₁ s).2 = false ∨ Hidden lib c₁ c₂ ps := by
    rw [hides_entries, hides_entries, ← h.startup, ← or_and_left, h.hides_iff ps _ rfl]
  rw [and_iff_left fun n f fee => h.status n f fee, logs, logs, hlogs, ← hentries]
  by_cases hlevel : c₁.logLevel = .error
  · simp [hlevel]
  · simp only [hlevel, false_or]
    rfl

/-! ## Two deployments -/

/-- A library that accepts every URL and every key, quotes a text byte by byte, and finds
a reorg in every event of that stream. -/
def plainLibrary : Library where
  quote s := s.flatMap (fun b => [92, b]) ++ [34]
  quote_delimited := SelfDelimiting.list (fun a b x y h => by simpa using h) (by decide)
  parseError _ := none
  lockScript _ := some []
  scriptHash := id
  address := id
  handle st _ _ := ⟨if st = .reorg then some ⟨9, 1⟩ else none, []⟩

/-- The defaults, with secrets. -/
def deployment (adminToken callbackToken webhook : Bytes) : Config where
  adminToken := adminToken
  port := ascii "8080"
  statePath := ascii "./state.db"
  logLevel := .info
  logFormat := .json
  arcadeBaseURL := defaultBaseURL
  arcadeCallbackToken := callbackToken
  wocBaseURL := ascii "https://api.whatsonchain.com/v1/bsv/main"
  privateKey := []
  instanceID := ascii "run"
  environment := ascii "production"
  numChains := 10000
  fanoutSize := 100
  sustainFee := 0
  maxTPS := 10000
  broadcastConcurrency := 64
  broadcastRetryMax := 3
  httpTimeout := 30 * 10 ^ 9
  sseReconnectMin := 10 ^ 9
  sseReconnectMax := 30 * 10 ^ 9
  slackWebhookURL := webhook
  slackChannel := ascii "#alerts"

theorem sameButSecrets_deployment {a₁ a₂ t₁ t₂ w₁ w₂ : Bytes} (ha : a₁ = [] ↔ a₂ = [])
    (ht : t₁ = [] ↔ t₂ = []) (hw : w₁ = [] ↔ w₂ = []) :
    SameButSecrets plainLibrary (deployment a₁ t₁ w₁) (deployment a₂ t₂ w₂) :=
  ⟨rfl, ha, Iff.rfl, ht, hw, rfl⟩

/-- A restart with one chain. -/
def restart : Startup := ⟨[], [], .restored 1, none, none⟩

/-- No jitter. -/
def noJitter : Backoff.Rand := ⟨fun _ => 0, fun _ hn => ⟨le_rfl, hn⟩⟩

/-- A call at time 0 whose post to Slack ends with `reply`. -/
def callWith (reply : PostReply) : Call := ⟨0, Notifier.keyOrder, reply⟩

/-- The transaction events are refused with a status, which names nothing. -/
theorem secrets_hidden_status :
    SameButSecrets plainLibrary (deployment [97] [97] [97]) (deployment [98] [98] [98]) ∧
    logs plainLibrary (deployment [97] [97] [97]) restart
        [⟨.arcadeTx, .response 503 [] none 0 fun _ => callWith (.status 200), noJitter⟩] =
      logs plainLibrary (deployment [98] [98] [98]) restart
        [⟨.arcadeTx, .response 503 [] none 0 fun _ => callWith (.status 200), noJitter⟩] := by
  have hsame : SameButSecrets plainLibrary (deployment [97] [97] [97]) (deployment [98] [98] [98]) :=
    sameButSecrets_deployment (by decide) (by decide) (by decide)
  refine ⟨hsame, ((secrets_hidden_iff plainLibrary _ _ hsame restart _).2
    (.inr (.inr ⟨.inr fun p hp _ => ?_, .inr fun x hx => ?_⟩))).1⟩
  · rw [List.mem_singleton.1 hp]
    rfl
  · exact absurd hx List.not_mem_nil

/-- A connection that fails shows the callback token, and a post that fails the webhook:
two deployments that differ in one of them only have different logs. -/
theorem secrets_logged :
    (SameButSecrets plainLibrary (deployment [97] [97] []) (deployment [97] [98] []) ∧
      logs plainLibrary (deployment [97] [97] []) restart
          [⟨.arcadeTx, .failed (ascii "connection refused"), noJitter⟩] ≠
        logs plainLibrary (deployment [97] [98] []) restart
          [⟨.arcadeTx, .failed (ascii "connection refused"), noJitter⟩]) ∧
    SameButSecrets plainLibrary (deployment [97] [] [97]) (deployment [97] [] [98]) ∧
      logs plainLibrary (deployment [97] [] [97]) restart
          [⟨.reorg, .response 200 [ascii "data:1\n\n"] none 0
            fun _ => callWith (.failed (ascii "connection refused")), noJitter⟩] ≠
        logs plainLibrary (deployment [97] [] [98]) restart
          [⟨.reorg, .response 200 [ascii "data:1\n\n"] none 0
            fun _ => callWith (.failed (ascii "connection refused")), noJitter⟩] := by
  refine ⟨⟨sameButSecrets_deployment (by decide) (by decide) (by decide), ?_⟩,
    sameButSecrets_deployment (by decide) (by decide) (by decide), ?_⟩
  · decide +kernel
  · decide +kernel

end TxGen.Logs
