import TxGen.Proof.Delivery
import TxGen.Proof.Request
import TxGen.Spec.Body

/-!
# The script configures the server

The request that `scripts/initial-funding.ts` sends for a plan is accepted by the server,
and what is then in effect is the plan (`script_configures_server`). In between lie the
two programs' readings of the token and the JSON text of the payload, which
`encoding/json` has to read back number by number.
-/

namespace TxGen

open Lib

/-! ## Numbers -/

theorem readUint_eq_digitsValue (l : Bytes) : Json.digitsValue l = readUint l := by
  rw [Json.digitsValue, readUint, Nat.ofDigits_eq_foldr, List.foldr_map, List.foldr_reverse]
  congr 1
  funext n b
  simp only [Nat.cast_id]
  omega

theorem isDigit_of_mem_appendUint {n : ℕ} {b : Fin 256} (h : b ∈ appendUint n) :
    Json.isDigit b = true := by
  have hb := digit_of_mem_appendUint h
  simp only [Json.isDigit, Bool.and_eq_true, decide_eq_true_eq]
  omega

theorem appendUint_ne_nil (n : ℕ) : appendUint n ≠ [] := by
  rw [appendUint]
  split_ifs with h
  · nofun
  · simpa using Nat.digits_ne_nil_iff_ne_zero.2 h

theorem natLiteral_appendUint (n : ℕ) : Json.natLiteral (appendUint n) = some n := by
  rw [Json.natLiteral, if_pos ⟨appendUint_ne_nil n, List.all_eq_true.2 fun b hb =>
    isDigit_of_mem_appendUint hb⟩, readUint_eq_digitsValue, readUint_appendUint]

theorem intLiteral_appendUint (n : ℕ) : Json.intLiteral (appendUint n) = some (n : ℤ) := by
  have hnat := natLiteral_appendUint n
  cases happ : appendUint n with
  | nil => exact absurd happ (appendUint_ne_nil n)
  | cons b l =>
    have hb : b ≠ 0x2d := by
      rintro rfl
      have hdigit : (0x2d : Fin 256) ∈ appendUint n := by
        rw [happ]
        exact List.mem_cons_self
      exact absurd (isDigit_of_mem_appendUint hdigit) (by decide)
    rw [Json.intLiteral, if_neg hb, ← happ, hnat]
    rfl

/-- The digits of a number do not begin with a zero, but for zero. -/
theorem head_appendUint {n : ℕ} (hn : n ≠ 0) : (appendUint n).head? ≠ some 0x30 := by
  rw [appendUint, if_neg hn, List.head?_map, List.head?_reverse]
  intro h
  obtain ⟨d, hd, hbyte⟩ := Option.map_eq_some_iff.1 h
  have hlast := Nat.getLast_digit_ne_zero 10 hn
  rw [List.getLast?_eq_some_getLast (Nat.digits_ne_nil_iff_ne_zero.2 hn), Option.some.injEq] at hd
  rw [hd] at hlast
  have hlt : d < 10 := Nat.digits_lt_base (by decide) (hd ▸ List.getLast_mem _)
  have hval := congrArg Fin.val hbyte
  rw [digitByte_val hlt] at hval
  change 48 + d = 48 at hval
  omega

theorem isNumber_appendUint (n : ℕ) : Json.isNumber (appendUint n) = true := by
  have hall : ∀ b ∈ appendUint n, Json.isDigit b = true := fun b => isDigit_of_mem_appendUint
  have htake : (appendUint n).takeWhile Json.isDigit = appendUint n := List.takeWhile_eq_self_iff.2 hall
  have hdrop : (appendUint n).dropWhile Json.isDigit = [] := List.dropWhile_eq_nil_iff.2 hall
  have hunsigned : Json.isUnsigned (appendUint n) = true := by
    rw [Json.isUnsigned, htake, hdrop]
    cases happ : appendUint n with
    | nil => exact absurd happ (appendUint_ne_nil n)
    | cons b l =>
      cases l with
      | nil => rfl
      | cons c l =>
        have hn : n ≠ 0 := by
          rintro rfl
          simp [appendUint] at happ
        have hhead := head_appendUint hn
        rw [happ, List.head?_cons, ne_eq, Option.some.injEq] at hhead
        simp [hhead, Json.isFraction]
  cases happ : appendUint n with
  | nil => exact absurd happ (appendUint_ne_nil n)
  | cons b l =>
    rw [happ] at hunsigned hall
    have hb : b ≠ 0x2d := by
      rintro rfl
      exact absurd (hall _ List.mem_cons_self) (by decide)
    rw [Json.isNumber, if_neg hb]
    exact hunsigned

theorem length_appendUint_le {n k : ℕ} (hk : 0 < k) (h : n < 10 ^ k) : (appendUint n).length ≤ k := by
  rw [appendUint]
  split_ifs with h0
  · exact hk
  · rw [List.length_map, List.length_reverse]
    exact (Nat.digits_length_le_iff (by decide) n).2 h

/-! ## The payload -/

theorem inside_of_plain {s : Bytes} (h : s.all Json.isPlain = true) : Json.Inside s := by
  induction s with
  | nil => exact .nil
  | cons b s ih =>
    rw [List.all_cons, Bool.and_eq_true] at h
    exact .plain h.1 (ih h.2)

namespace Funding

/-- An object of numbers as it is read. -/
def asMember (m : String × ℕ) : List Char × Json := (Json.unquote (ascii m.1), .number (appendUint m.2))

theorem memberText (m : String × ℕ) (h : (ascii m.1).all Json.isPlain = true) :
    Json.Spaced (Json.MemberText (Json.Text 0)) (asMember m) (stringifyMember m) := by
  have hnum : Json.Text 0 (.number (appendUint m.2)) (appendUint m.2) :=
    ⟨[], appendUint m.2, rfl, nofun, .number (isNumber_appendUint m.2)⟩
  exact ⟨[], stringifyMember m, rfl, nofun, .mk (inside_of_plain h) (w := []) nofun hnum⟩

theorem items_stringify {m : String × ℕ} {ms : List (String × ℕ)}
    (h : ∀ x ∈ m :: ms, (ascii x.1).all Json.isPlain = true) :
    Json.Items (Json.Spaced (Json.MemberText (Json.Text 0))) Json.rbrace ((m :: ms).map asMember)
      ([Json.comma].intercalate ((m :: ms).map stringifyMember) ++ [Json.rbrace]) := by
  induction ms generalizing m with
  | nil =>
    have hm := memberText m (h m List.mem_cons_self)
    have hlast : Json.Items _ Json.rbrace [asMember m] (stringifyMember m ++ ([] ++ [Json.rbrace])) :=
      .last hm nofun
    simpa [List.intercalate] using hlast
  | cons m' ms ih =>
    have hm := memberText m (h m List.mem_cons_self)
    have hrest := ih fun x hx => h x (List.mem_cons_of_mem m hx)
    have hcons := Json.Items.cons hm (w := []) nofun hrest
    simpa [List.intercalate] using hcons

/-- **The payload is read back.** -/
theorem text_stringify {m : String × ℕ} {ms : List (String × ℕ)}
    (h : ∀ x ∈ m :: ms, (ascii x.1).all Json.isPlain = true) :
    Json.Text 1 (.object ((m :: ms).map asMember)) (stringify (m :: ms)) :=
  ⟨[], stringify (m :: ms), rfl, nofun, .object (.items (items_stringify h))⟩

/-- The request that asks for a plan. -/
def FundingPlan.request (plan : FundingPlan) : ConfigRequest :=
  ⟨some plan.tps, some plan.numChains, some plan.maxFanoutSize, some plan.sustainFee⟩

/-- The members of the payload. -/
def FundingPlan.members (plan : FundingPlan) : List (String × ℕ) :=
  [("tps", plan.tps), ("numChains", plan.numChains), ("fanoutSize", plan.maxFanoutSize),
    ("sustainFee", plan.sustainFee)]

/-- The numbers of the payload are safe integers. -/
structure FundingPlan.Safe (plan : FundingPlan) : Prop where
  tps : plan.tps ≤ maxSafeInteger
  numChains : plan.numChains ≤ maxSafeInteger
  maxFanoutSize : plan.maxFanoutSize ≤ maxSafeInteger
  sustainFee : plan.sustainFee ≤ maxSafeInteger

theorem signed_appendUint {n : ℕ} (h : n ≤ maxSafeInteger) :
    signed 64 (appendUint n) = some (n : ℤ) := by
  rw [signed, intLiteral_appendUint, Option.filter_eq_some_iff]
  simp only [maxSafeInteger] at h
  simp only [Bool.and_eq_true, decide_eq_true_eq, true_and]
  omega

theorem unsigned_appendUint {n : ℕ} (h : n ≤ maxSafeInteger) :
    unsigned 64 (appendUint n) = some n := by
  rw [unsigned, natLiteral_appendUint, Option.filter_eq_some_iff]
  simp only [maxSafeInteger] at h
  simp only [decide_eq_true_eq, true_and]
  omega

/-- The keys of the payload. -/
def payloadKeys : List String := ["tps", "numChains", "fanoutSize", "sustainFee"]

/-- Each of them names its own field only. -/
theorem names_payloadKeys : ∀ key ∈ payloadKeys, ∀ field ∈ payloadKeys,
    names (Json.unquote (ascii key)) field = decide (key = field) := by
  decide +kernel

/-- One number stands under each key. -/
theorem valuesOf_members (plan : FundingPlan) {m : String × ℕ} (hm : m ∈ plan.members) :
    valuesOf m.1 (plan.members.map asMember) = [.number (appendUint m.2)] := by
  have hkeys : plan.members.map Prod.fst = payloadKeys := rfl
  have hkey : ∀ x ∈ plan.members, x.1 ∈ payloadKeys := fun x hx =>
    hkeys ▸ List.mem_map_of_mem hx
  have hfilter : (plan.members.map asMember).filter (fun x => names x.1 m.1) =
      (plan.members.filter fun x => x.1 = m.1).map asMember := by
    rw [List.filter_map]
    refine congrArg _ (List.filter_congr fun x hx => ?_)
    exact names_payloadKeys x.1 (hkey x hx) m.1 (hkey m hm)
  have hone : plan.members.filter (fun x => x.1 = m.1) = [m] := by
    simp only [FundingPlan.members, List.mem_cons, List.not_mem_nil, or_false] at hm ⊢
    rcases hm with rfl | rfl | rfl | rfl <;> simp
  rw [valuesOf, hfilter, hone]
  rfl

theorem lawful_configRequest : Lawful ConfigRequest.fields where
  distinct := by decide +kernel
  apart := by simp [ConfigRequest.fields, RecordField.of, RecordField.Apart]
  get_put := by simp [ConfigRequest.fields, RecordField.of]
  ext r r' heq := by
    cases r
    cases r'
    simpa [ConfigRequest.fields, RecordField.of] using heq

theorem intoRecord_members {plan : FundingPlan} (h : plan.Safe) :
    intoRecord ConfigRequest.fields .zero (.object (plan.members.map asMember)) =
      some plan.request := by
  have hread {F : Type} {literal : Bytes → Option F} {zero x : F} {m : String × ℕ}
      (hm : m ∈ plan.members) (hx : literal (appendUint m.2) = some x) :
      (valuesOf m.1 (plan.members.map asMember)).foldlM
        (intoPointer zero (intoNumber literal)) none = some (some x) := by
    rw [valuesOf_members plan hm, List.foldlM_cons, intoPointer.eq_2 _ _ _ _ Json.noConfusion,
      intoNumber, hx]
    rfl
  rw [lawful_configRequest.intoRecord_object]
  simp only [ConfigRequest.fields, List.forall_mem_cons]
  exact ⟨hread (m := ("tps", plan.tps)) (by simp [FundingPlan.members]) (signed_appendUint h.tps),
    hread (m := ("numChains", plan.numChains)) (by simp [FundingPlan.members])
      (signed_appendUint h.numChains),
    hread (m := ("fanoutSize", plan.maxFanoutSize)) (by simp [FundingPlan.members])
      (signed_appendUint h.maxFanoutSize),
    hread (m := ("sustainFee", plan.sustainFee)) (by simp [FundingPlan.members])
      (unsigned_appendUint h.sustainFee), List.forall_mem_nil _⟩

theorem length_stringify {plan : FundingPlan} (h : plan.Safe) :
    (stringify plan.members).length ≤ maxConfigBodyBytes := by
  have hlen {n : ℕ} (hn : n ≤ maxSafeInteger) : (appendUint n).length ≤ 16 :=
    length_appendUint_le (by decide) (hn.trans_lt (by decide))
  have h₁ := hlen h.tps
  have h₂ := hlen h.numChains
  have h₃ := hlen h.maxFanoutSize
  have h₄ := hlen h.sustainFee
  simp [stringify, FundingPlan.members, stringifyMember, List.intercalate, ascii, maxConfigBodyBytes]
  omega

/-- The server decodes the payload of a plan to the request for it. -/
theorem decodeConfig_stringify {plan : FundingPlan} (h : plan.Safe) :
    decodeConfig (stringify plan.members) = some plan.request := by
  have htext : Json.Text maxNestingDepth (.object (plan.members.map asMember))
      (stringify plan.members) :=
    Json.Text.mono (by decide) (text_stringify (by
      have hplain : ∀ key ∈ ["tps", "numChains", "fanoutSize", "sustainFee"],
          (ascii key).all Json.isPlain = true := by decide +kernel
      intro m hm
      exact hplain m.1 (List.mem_map_of_mem (f := Prod.fst) hm)))
  have hvalue : Json.value maxNestingDepth (stringify plan.members) =
      some (.object (plan.members.map asMember), []) :=
    (Json.value_exact _ _ _ _).2 ⟨_, (List.append_nil _).symm, htext, .inl trivial⟩
  rw [decodeConfig, List.take_of_length_le (length_stringify h), hvalue]
  exact intoRecord_members h

theorem FundingPlan.safe {ceilSqrt : ℕ → ℕ+} {input : Input} {plan : FundingPlan}
    (h : buildFundingPlan ceilSqrt input = .ok plan)
    (hbytes : (input.maxBootstrapTxBytes : ℕ) ≤ maxSafeInteger)
    (hfee : plan.sustainFee ≤ maxSafeInteger) : plan.Safe := by
  have hcomp := buildFundingPlan_computed h
  have htps : plan.tps ≤ plan.numChains := by
    unfold buildFundingPlan at h
    dsimp only at h
    split_ifs at h
    · cases h
    obtain ⟨fanout, -, h⟩ := bind_ok h
    obtain ⟨⟨⟩, -, h⟩ := bind_ok h
    cases h
    exact Nat.le_mul_of_pos_right _ input.utxoIdleSeconds.pos
  refine ⟨htps.trans hcomp.numChains_le, hcomp.numChains_le, ?_, hfee⟩
  -- a fanout has at least a byte for each output
  refine hcomp.fanoutSize_le.trans ?_
  rcases (maxTaggedDropFanoutOutputs_spec input.maxBootstrapTxBytes).2 with hone | hfit
  · rw [hone]
    decide
  · rw [estimateTaggedDropFanoutBytes_eq] at hfit
    omega

/-! ## The token -/

theorem encodeRune_of_ascii {c : Char} (h : c.toNat < 0x80) : encodeRune c = [Fin.ofNat 256 c.toNat] := by
  have hval : (Fin.ofNat 256 c.toNat).val = c.toNat := Nat.mod_eq_of_lt (by omega)
  have henc := Utf8.encode_ofNat (b := Fin.ofNat 256 c.toNat) (by rw [hval]; exact h)
  rw [hval, Char.ofNat_toNat] at henc
  exact henc

/-- Printable ASCII. -/
def Printable (s : List Char) : Prop := ∀ c ∈ s, 0x20 ≤ c.toNat ∧ c.toNat < 0x7f

theorem Printable.of_all {s : List Char}
    (h : (s.all fun c => 0x20 ≤ c.toNat ∧ c.toNat < 0x7f) = true) : Printable s :=
  fun c hc => of_decide_eq_true (List.all_eq_true.1 h c hc)

theorem Printable.trim_eq {s : List Char} (h : Printable s) : trim goIsSpace s = trim jsIsSpace s := by
  refine trim_congr fun c hc => ?_
  have hrange := h c hc
  simp only [goIsSpace, jsIsSpace]
  rw [Bool.eq_iff_iff]
  simp only [Bool.or_eq_true, Bool.and_eq_true, decide_eq_true_eq]
  omega

theorem Printable.trim {s : List Char} (h : Printable s) (p : Char → Bool) : Printable (Lib.trim p s) := by
  intro c hc
  refine h c ?_
  exact (List.dropWhile_sublist p).subset ((List.rdropWhile_prefix p _).subset hc)

/-- The bytes of a printable string are the same in UTF-8 and in a header. -/
theorem Printable.encode {s : List Char} (h : Printable s) :
    s.flatMap encodeRune = s.map fun c => Fin.ofNat 256 c.toNat := by
  induction s with
  | nil => rfl
  | cons c s ih =>
    have hc := h c List.mem_cons_self
    rw [List.flatMap_cons, List.map_cons, encodeRune_of_ascii (by omega),
      ih fun d hd => h d (List.mem_cons_of_mem c hd)]
    rfl

theorem Printable.headerBytes {s : List Char} (h : Printable s) :
    headerBytes s = some (s.map fun c => Fin.ofNat 256 c.toNat) := by
  refine if_pos (List.all_eq_true.2 fun c hc => ?_)
  have hrange := h c hc
  have hne : c ≠ '\x00' ∧ c ≠ '\n' ∧ c ≠ '\r' := by
    refine ⟨?_, ?_, ?_⟩ <;> rintro rfl <;> exact absurd hrange.1 (by decide)
  simp only [hne, ne_eq, not_false_eq_true, decide_true, Bool.and_true, decide_eq_true_eq]
  omega

/-- The script's request for a plan, when its token is printable. -/
theorem applyTxGenConfig_eq {env : List Char} (henv : Printable env) (htoken : trim jsIsSpace env ≠ [])
    {plan : FundingPlan} (hfee : plan.sustainFee ≤ maxSafeInteger) :
    applyTxGenConfig env plan =
      .ok ⟨.config, ascii "Bearer " ++ (trim jsIsSpace env).map fun c => Fin.ofNat 256 c.toNat,
        ascii "application/json", stringify plan.members⟩ := by
  have hpayload : txGenConfigPayload plan = .ok plan.members := by
    rw [txGenConfigPayload, toSafeSatoshiNumber, if_neg (by omega)]
    rfl
  have hbearer : Printable ("Bearer ".toList ++ trim jsIsSpace env) := by
    intro c hc
    rcases List.mem_append.1 hc with hc | hc
    · exact Printable.of_all (s := "Bearer ".toList) (by decide) c hc
    · exact henv.trim _ c hc
  have hheader := hbearer.headerBytes
  rw [List.map_append] at hheader
  simp only [applyTxGenConfig, if_neg htoken, hpayload, hheader]
  rfl

/-- The server takes the token. -/
theorem authorized_bearer (lib : Library) {env : List Char} (henv : Printable env)
    (htoken : trim jsIsSpace env ≠ []) :
    authorized lib (loadAdminToken (env.flatMap encodeRune))
      (ascii "Bearer " ++ (trim jsIsSpace env).map fun c => Fin.ofNat 256 c.toNat) = true := by
  have hload : loadAdminToken (env.flatMap encodeRune) =
      (trim jsIsSpace env).map fun c => Fin.ofNat 256 c.toNat := by
    rw [← (henv.trim _).encode, ← henv.trim_eq]
    exact Utf8.trim_flatMap_encode goIsSpace env
  have hcut (t : Bytes) : cut (ascii "Bearer ") (ascii "Bearer " ++ t) = some t := by
    rw [cut, if_pos (List.isPrefixOf_iff_prefix.2 ⟨t, rfl⟩), List.drop_left]
  rw [authorized, hcut, hload]
  simp [htoken]

/-- The server's handlers see the script's request as one for the plan. -/
theorem decoded_eq (lib : Library) {env : List Char} (henv : Printable env)
    (htoken : trim jsIsSpace env ≠ []) {plan : FundingPlan} (h : plan.Safe) :
    HttpPost.decoded lib (loadAdminToken (env.flatMap encodeRune))
      ⟨.config, ascii "Bearer " ++ (trim jsIsSpace env).map fun c => Fin.ofNat 256 c.toNat,
        ascii "application/json", stringify plan.members⟩ = configPost plan.request := by
  simp only [HttpPost.decoded, configPost, authorized_bearer lib henv htoken, lib.mediaType_json,
    decodeConfig_stringify h, decide_true]

theorem FundingPlan.Computed.sustainFee_pos {plan : FundingPlan} {maxBytes : ℕ}
    (h : plan.Computed maxBytes) : 0 < plan.sustainFee := by
  have hleaf := h.leafValue_pos
  rw [h.leafValue] at hleaf
  exact Nat.pos_of_mul_pos_left hleaf

theorem validate_request {plan : FundingPlan} {maxBytes : ℕ} (h : plan.Computed maxBytes)
    {c : ServerConfig} (hmax : (plan.tps : ℤ) ≤ positiveOr c.maxTPS defaultMaxTPS) :
    c.validate plan.request = none := by
  have hchains := h.numChains_pos
  have hfanout := h.fanoutSize_pos
  have hfee := h.sustainFee_pos
  simp only [ServerConfig.validate, FundingPlan.request, Option.any_some, decide_eq_true_eq]
  rw [if_neg nofun, if_neg (by omega), if_neg (by omega), if_neg (by omega), if_neg (by omega)]

theorem configureBootstrap_request {Hash : Type} {plan : FundingPlan} {maxBytes : ℕ}
    (h : plan.Computed maxBytes) {q : Proc Hash} (hfunded : q.funded = false) :
    ∃ q', q.configureBootstrap plan.request.update = .ok q' ∧ q'.config = plan.config := by
  have hchains := h.numChains_pos
  have hfanout := h.fanoutSize_pos
  have hfee := h.sustainFee_pos
  have hcheck : Proc.checkUpdate plan.request.update = none := by
    simp only [Proc.checkUpdate, FundingPlan.request, ConfigRequest.update, Option.any_some,
      decide_eq_true_eq]
    rw [if_neg (by omega), if_neg (by omega), if_neg (by omega)]
  have hok : ∃ q', q.configureBootstrap plan.request.update = .ok q' := by
    simp only [Proc.configureBootstrap, hcheck, hfunded]
    exact ⟨_, rfl⟩
  obtain ⟨q', hq'⟩ := hok
  obtain ⟨hproc, hmode⟩ := configureBootstrap_ok hq'
  refine ⟨q', hq', ?_⟩
  rw [Proc.config, hmode, hproc]
  rfl

end Funding

open Funding in
/-- **The script configures the server for its plan.** When the rate of the plan is at most
the server's highest, its bound on the size of a transaction and its fee are safe integers,
both programs are given the same printable token, and the engine has started and has not
been funded, then the request of the script is answered with 200, and the number of chains,
the fanout size, the fee and the rate are those of the plan, in the engine and in what the
server reports. -/
theorem script_configures_server {Hash : Type} (sdk : SDK Hash) (lib : Library)
    {ceilSqrt : ℕ → ℕ+} {input : Input} {plan : FundingPlan}
    (hplan : buildFundingPlan ceilSqrt input = .ok plan)
    (hbytes : (input.maxBootstrapTxBytes : ℕ) ≤ maxSafeInteger)
    (hfee : plan.sustainFee ≤ maxSafeInteger) {env : List Char} (henv : Printable env)
    (htoken : trim jsIsSpace env ≠ []) {adminToken : Bytes}
    (hadmin : loadAdminToken (env.flatMap encodeRune) = adminToken) {s : Service Hash} {q : Proc Hash}
    (hq : s.live.world.proc = some q) (hst : q.main.starting = false) (hfunded : q.funded = false)
    (hmax : (plan.tps : ℤ) ≤ positiveOr s.cfg.maxTPS defaultMaxTPS) :
    ∃ post body q', applyTxGenConfig env plan = .ok post ∧
      (s.serve sdk (post.decoded lib adminToken)).answer s.handlers.length = some (.ok body) ∧
      (s.serve sdk (post.decoded lib adminToken)).live.world.proc = some q' ∧
      q'.config = plan.config ∧
      (s.serve sdk (post.decoded lib adminToken)).reported = plan.config ∧
      (s.serve sdk (post.decoded lib adminToken)).live.control.tps = plan.tps := by
  have hsafe := FundingPlan.safe hplan hbytes hfee
  have hcomp := buildFundingPlan_computed hplan
  obtain ⟨q', hconf, hconfig⟩ := configureBootstrap_request hcomp hfunded
  obtain ⟨body, accepted, hserve⟩ :=
    Service.serve_configured sdk hq hst (validate_request hcomp hmax) rfl hconf
  refine ⟨_, body, q', applyTxGenConfig_eq henv htoken hfee, ?_⟩
  have happlied : Service.Applied plan.request s (s.serve sdk (configPost plan.request)) q q' := by
    rw [hserve]
    exact .configured hst rfl hconf
  rw [← hadmin, decoded_eq lib henv htoken hsafe]
  rw [hserve] at happlied ⊢
  refine ⟨Service.answer_withHandler _ _ _, congrArg World.proc happlied.world, hconfig, ?_,
    happlied.tps⟩
  rw [← hconfig]
  rfl

namespace Concrete

/-- Nothing is hashed, and a content type is its media type. -/
def plainLibrary : Library := ⟨id, some, rfl⟩

end Concrete

open Funding Concrete in
theorem script_configures_waiting :
    ∃ post body q', applyTxGenConfig " token ".toList smallPlan = .ok post ∧
      (waiting.serve plainSDK (post.decoded plainLibrary (ascii "token"))).answer
        waiting.handlers.length = some (.ok body) ∧
      (waiting.serve plainSDK (post.decoded plainLibrary (ascii "token"))).live.world.proc = some q' ∧
      q'.config = smallPlan.config ∧
      (waiting.serve plainSDK (post.decoded plainLibrary (ascii "token"))).reported =
        smallPlan.config ∧
      (waiting.serve plainSDK (post.decoded plainLibrary (ascii "token"))).live.control.tps =
        smallPlan.tps := by
  have hplan : buildFundingPlan (fun _ => 1) smallInput = .ok smallPlan := by decide +kernel
  have henv : Printable " token ".toList := .of_all (by decide)
  have hrun : waiting.live.world.proc.map (fun q => (q.main.starting, q.funded)) =
      some (false, false) := by
    decide +kernel
  obtain ⟨q, hq, hpair⟩ := Option.map_eq_some_iff.1 hrun
  obtain ⟨hst, hfunded⟩ := Prod.mk.inj hpair
  exact script_configures_server plainSDK plainLibrary hplan (by decide) (by decide) henv
    (by decide +kernel) (by decide +kernel) hq hst hfunded (by decide +kernel)

end TxGen
