import TxGen.Proof.Config
import TxGen.Spec.Settings

/-!
# Settings of the two programs

* `settings_are_read`: the variables written in a file `.env` are those the funding script
  has, however the file is laid out.
* `printed_settings_load`: a server that is started with what the script prints for a plan
  and with the script's own fee is configured for the plan. The two programs strip different
  blanks and read different numbers, but what both accept is the same (`sustainFee_agrees`).
* `duration_round_trip`: a duration as it is printed is read back.
-/

namespace TxGen.Funding

open Lib

/-! ## Lines -/

/-- Blanks. -/
def Blank (l : List Char) : Prop := ∀ c ∈ l, jsIsSpace c = true

theorem Blank.trim_append {b : List Char} (hb : Blank b) (l : List Char) :
    trim jsIsSpace (b ++ l) = trim jsIsSpace l := by
  have h := trim_append_of_all hb (List.forall_mem_nil _) l
  rwa [List.append_nil] at h

section Lines

variable {l s : List Char}

end Lines

/-! ## Assignments -/

/-- The name of a variable. -/
structure IsKey (key : List Char) : Prop where
  ne_nil : key ≠ []
  visible : ∀ c ∈ key, jsIsSpace c = false ∧ c ≠ '='
  no_comment : key.head? ≠ some '#'
  no_export : key ≠ "export".toList

/-- How a value is written: between quotes, or as it is when nothing is stripped from it. -/
inductive Written (value : List Char) : List Char → Prop
  | quoted {q : Char} (hq : q ∈ quotes) : Written value (q :: (value ++ [q]))
  | plain (htrim : trim jsIsSpace value = value) (hq : isQuoted value = false) : Written value value

/-- What may stand before a name. -/
inductive Lead : List Char → Prop
  | none : Lead []
  | exported {b : List Char} (hb : Blank b) : Lead (exportWord ++ b)

/-- A line of the file, with what it assigns. -/
inductive Line : Option (List Char × List Char) → List Char → Prop
  | blank {l : List Char} (hl : Blank l) : Line none l
  | comment {b t : List Char} (hb : Blank b) : Line none (b ++ '#' :: t)
  | assign {a e key b d raw value z : List Char} (ha : Blank a) (he : Lead e) (hkey : IsKey key)
      (hb : Blank b) (hd : Blank d) (hraw : Written value raw) (hz : Blank z) :
      Line (some (key, value)) (a ++ (e ++ (key ++ b ++ '=' :: (d ++ (raw ++ z)))))

/-- The file, with what it assigns. -/
inductive File : List (List Char × List Char) → List Char → Prop
  | last {var : Option (List Char × List Char)} {l : List Char} (h : Line var l) (hl : '\n' ∉ l) :
      File var.toList l
  | cons {var : Option (List Char × List Char)} {l : List Char} (h : Line var l) (hl : '\n' ∉ l)
      {vars : List (List Char × List Char)} {s : List Char} (hs : File vars s) :
      File (var.toList ++ vars) (l ++ '\n' :: s)

theorem Written.trim_eq {value raw : List Char} (h : Written value raw) : trim jsIsSpace raw = raw := by
  cases h with
  | plain htrim hq => exact htrim
  | @quoted q hq =>
    have hvisible : jsIsSpace q = false := by
      rcases List.mem_cons.1 hq with rfl | hq
      · decide
      · rw [List.mem_singleton.1 hq]
        decide
    rw [trim_of_head rfl hvisible, ← List.cons_append]
    exact rdropWhile_of_last List.getLast?_concat hvisible

theorem Written.unquote {value raw : List Char} (h : Written value raw) :
    unquoteEnvValue raw = value := by
  cases h with
  | plain htrim hq => rw [unquoteEnvValue, hq]; rfl
  | @quoted q hq =>
    have hquoted : isQuoted (q :: (value ++ [q])) = true := by
      rw [isQuoted, List.any_eq_true]
      refine ⟨q, hq, ?_⟩
      rw [← List.cons_append, List.getLast?_concat]
      simp
    rw [unquoteEnvValue, if_pos hquoted, List.drop_one, List.tail_cons, List.dropLast_concat]

section Assign

variable {key b w : List Char} (hkey : IsKey key)
include hkey

end Assign

theorem IsKey.of_all {key : List Char} (hne : key ≠ [])
    (hall : (key.all fun c => !jsIsSpace c && c ≠ '=') = true) (hcomment : key.head? ≠ some '#')
    (hexport : key ≠ "export".toList) : IsKey key where
  ne_nil := hne
  visible c hc := by simpa using List.all_eq_true.1 hall c hc
  no_comment := hcomment
  no_export := hexport

/-- The bytes of a text. -/
abbrev utf8 (s : List Char) : Bytes := s.flatMap encodeRune

theorem utf8_decimal (n : ℕ) : utf8 (decimal n) = appendUint n := by
  have hascii : ∀ b ∈ appendUint n, encodeRune (Char.ofNat b.val) = [b] := by
    intro b hb
    have hdigit := digit_of_mem_appendUint hb
    exact Utf8.encode_ofNat (by omega)
  rw [utf8, decimal, List.flatMap_map]
  calc (appendUint n).flatMap (fun b => encodeRune (Char.ofNat b.val))
      = (appendUint n).flatMap fun b => [b] := List.flatMap_congr hascii
    _ = appendUint n := List.flatMap_singleton' _

theorem utf8_eq_nil {s : List Char} : utf8 s = [] ↔ s = [] := by
  rw [utf8, List.flatMap_eq_nil_iff]
  constructor
  · intro h
    cases s with
    | nil => rfl
    | cons r s => exact absurd (h r List.mem_cons_self) (Utf8.encode_ne_nil r)
  · rintro rfl
    exact List.forall_mem_nil _

theorem trimSpace_utf8 (s : List Char) : Script.trimSpace (utf8 s) = utf8 (trim goIsSpace s) :=
  Utf8.trim_flatMap_encode goIsSpace s

/-- What is a digit in bytes is one. -/
theorem isDigit_of_encode {c : Char} (h : ∀ b ∈ encodeRune c, Json.isDigit b = true) :
    isDigit c = true := by
  simp only [Json.isDigit, Bool.and_eq_true, decide_eq_true_eq] at h
  obtain ⟨b, hb, hc⟩ := Utf8.exists_of_ascii fun b hb => (h b hb).2.trans_lt (by decide)
  rw [hc, isDigit, Env.toNat_ofNat_byte]
  simpa using h b hb

theorem digits_of_natLiteral {s : List Char} {n : ℕ} (h : Json.natLiteral (utf8 s) = some n) :
    s ≠ [] ∧ (∀ c ∈ s, isDigit c = true) ∧ digitsValue s = n := by
  rw [Json.natLiteral] at h
  split_ifs at h with hdigits
  obtain ⟨hne, hall⟩ := hdigits
  rw [List.all_eq_true] at hall
  have hdigit : ∀ c ∈ s, isDigit c = true := fun c hc =>
    isDigit_of_encode fun b hb => hall b (List.mem_flatMap.2 ⟨c, hc, hb⟩)
  have hprint : Printable s := by
    intro c hc
    have := hdigit c hc
    simp only [isDigit, Bool.and_eq_true, decide_eq_true_eq] at this
    omega
  refine ⟨?_, hdigit, ?_⟩
  · rintro rfl
    exact hne rfl
  · rw [Option.some.injEq, utf8, hprint.encode, Json.digitsValue, List.foldl_map] at h
    rw [← h, digitsValue]
    refine List.foldl_ext _ _ _ fun k c hc => ?_
    have := hprint c hc
    rw [Fin.val_ofNat, Nat.mod_eq_of_lt (by omega)]

theorem takeWhile_digits {ds b : List Char} (hds : ∀ c ∈ ds, isDigit c = true)
    (hb : ∀ c ∈ b.head?, isDigit c = false) : (ds ++ b).takeWhile isDigit = ds := by
  rw [List.takeWhile_append_of_pos hds]
  cases b with
  | nil => rw [List.takeWhile_nil, List.append_nil]
  | cons c b =>
    rw [List.takeWhile_cons_of_neg (by simp [hb c rfl]), List.append_nil]

theorem visible_of_isDigit {c : Char} (h : isDigit c = true) :
    jsIsSpace c = false ∧ goIsSpace c = false := by
  simp only [isDigit, Bool.and_eq_true, decide_eq_true_eq] at h
  rw [Bool.eq_false_iff, Bool.eq_false_iff, jsIsSpace, goIsSpace]
  simp only [ne_eq, Bool.or_eq_true, Bool.and_eq_true, decide_eq_true_eq]
  omega

theorem parseInt_digits {ds b : List Char} (hne : ds ≠ []) (hds : ∀ c ∈ ds, isDigit c = true)
    (hb : ∀ c ∈ b.head?, isDigit c = false) : parseInt (ds ++ b) = some (digitsValue ds : ℤ) := by
  have htake := takeWhile_digits hds hb
  obtain ⟨c, t, rfl⟩ := List.exists_cons_of_ne_nil hne
  have hc := hds c List.mem_cons_self
  have hdrop : (c :: t ++ b).dropWhile jsIsSpace = c :: t ++ b :=
    List.dropWhile_cons_of_neg (by simp [(visible_of_isDigit hc).1])
  rw [parseInt, hdrop]
  split
  · next heq =>
    rw [List.cons_append, List.cons.injEq] at heq
    rw [heq.1] at hc
    exact absurd hc (by decide)
  · next heq =>
    rw [List.cons_append, List.cons.injEq] at heq
    rw [heq.1] at hc
    exact absurd hc (by decide)
  · rw [leadingNumber, htake, if_neg hne]
    rfl

/-- The next-line control is no blank to the script, and no number. -/
theorem parseInt_nextLine {s : List Char} (h : s.head? = some nextLine) : parseInt s = none := by
  obtain ⟨t, rfl⟩ := List.head?_eq_some_iff.1 h
  rfl

/-- A blank of the server's that is none of the script's. -/
theorem eq_nextLine {c : Char} (hgo : goIsSpace c = true) (hjs : jsIsSpace c = false) :
    c = nextLine := by
  rcases (goIsSpace_iff c).1 hgo with hshared | hnext
  · simp only [sharedSpace, Bool.and_eq_true] at hshared
    rw [hshared.2] at hjs
    cases hjs
  · exact hnext

theorem trim_digits {ds : List Char} (hne : ds ≠ []) (hds : ∀ c ∈ ds, isDigit c = true)
    (b : List Char) : trim jsIsSpace (ds ++ b) = ds ++ b.rdropWhile jsIsSpace := by
  have hhead : (ds ++ b).head? = some (ds.head hne) := by
    rw [List.head?_append_of_ne_nil _ hne, List.head?_eq_some_head hne]
  rw [trim_of_head hhead (visible_of_isDigit (hds _ (List.head_mem hne))).1]
  have hlast := visible_of_isDigit (hds _ (List.getLast_mem hne))
  conv_lhs => rw [← List.dropLast_append_getLast hne, List.append_assoc, List.singleton_append,
    rdropWhile_append_cons hlast.1]
  rw [← List.singleton_append, ← List.append_assoc, List.dropLast_append_getLast]

/-- Among blanks of the server's that are not all blanks of the script's, the first one is the
next-line control. -/
theorem exists_nextLine {a : List Char} (ha : ∀ c ∈ a, goIsSpace c = true) (hblank : ¬Blank a) :
    ∃ b t, Blank b ∧ a = b ++ nextLine :: t := by
  have hsplit := List.takeWhile_append_dropWhile (p := jsIsSpace) (l := a)
  cases hdrop : a.dropWhile jsIsSpace with
  | nil => exact absurd (List.dropWhile_eq_nil_iff.1 hdrop) hblank
  | cons c t =>
    have hhead : (a.dropWhile jsIsSpace).head? = some c := by rw [hdrop]; rfl
    have hmem : c ∈ a := (List.dropWhile_sublist jsIsSpace).subset (List.mem_of_head? hhead)
    rw [hdrop, eq_nextLine (ha c hmem) (head_dropWhile hhead)] at hsplit
    exact ⟨_, t, fun _ => List.mem_takeWhile_imp, hsplit.symm⟩

section EnvInt

variable {env : ProcessEnv} {key : String} {fallback n : ℕ+} (h : envInt env key fallback = .ok n)
include h

theorem envInt_cases :
    env.raw key = [] ∧ n = fallback ∨
      env.raw key ≠ [] ∧ (parseInt (env.raw key)).bind safePositive = some n := by
  rw [envInt] at h
  split_ifs at h with hraw
  · cases h
    exact .inl ⟨hraw, rfl⟩
  · cases hparse : (parseInt (env.raw key)).bind safePositive with
    | none =>
      rw [hparse] at h
      cases h
    | some m =>
      rw [hparse] at h
      cases h
      exact .inr ⟨hraw, rfl⟩

theorem envInt_safe (hsafe : (fallback : ℕ) ≤ maxSafeInteger) : (n : ℕ) ≤ maxSafeInteger := by
  rcases envInt_cases h with ⟨-, rfl⟩ | ⟨-, hparse⟩
  · exact hsafe
  · obtain ⟨m, -, hm⟩ := Option.bind_eq_some_iff.1 hparse
    rw [safePositive] at hm
    split_ifs at hm with hrange
    cases hm
    exact Int.toNat_le.2 hrange.2

theorem envInt_head_ne : (env.raw key).head? ≠ some nextLine := by
  intro hhead
  rcases envInt_cases h with ⟨hraw, -⟩ | ⟨-, hparse⟩
  · rw [hraw] at hhead
    cases hhead
  · rw [parseInt_nextLine hhead] at hparse
    cases hparse

/-- What is blank to the server is blank to the script. -/
theorem envInt_blank (hblank : trim goIsSpace ((env.lookup key.toList).getD []) = []) :
    n = fallback := by
  rcases envInt_cases h with ⟨-, hn⟩ | ⟨hraw, -⟩
  · exact hn
  · exfalso
    obtain ⟨c, t, hc⟩ := List.exists_cons_of_ne_nil hraw
    have hhead : (env.raw key).head? = some c := by rw [hc]; rfl
    have hmem : c ∈ (env.lookup key.toList).getD [] := by
      refine (List.dropWhile_sublist jsIsSpace).subset ((List.rdropWhile_prefix jsIsSpace _).subset ?_)
      exact List.mem_of_head? hhead
    have hgo : goIsSpace c = true := by
      obtain ⟨a, b, ha, hb, hsplit⟩ :=
        exists_trim_append goIsSpace ((env.lookup key.toList).getD [])
      rw [hblank, List.nil_append] at hsplit
      rw [hsplit] at hmem
      rcases List.mem_append.1 hmem with hc | hc
      · exact ha c hc
      · exact hb c hc
    exact envInt_head_ne h (hhead.trans (by rw [eq_nextLine hgo (head_trim hhead)]))

/-- What are digits to the server is that number to the script. -/
theorem envInt_digits {ds : List Char}
    (htrim : trim goIsSpace ((env.lookup key.toList).getD []) = ds) (hne : ds ≠ [])
    (hds : ∀ c ∈ ds, isDigit c = true) : (n : ℕ) = digitsValue ds := by
  obtain ⟨a, b, ha, hb, hsplit⟩ := exists_trim_append goIsSpace ((env.lookup key.toList).getD [])
  rw [htrim] at hsplit
  have hraw : env.raw key = trim jsIsSpace (a ++ (ds ++ b)) := by rw [ProcessEnv.raw, ← hsplit]
  by_cases hblank : Blank a
  · -- the script strips the same from the left, and does not read past the digits
    have hrest : ∀ c ∈ (b.rdropWhile jsIsSpace).head?, isDigit c = false := by
      intro c hc
      have hgo := hb c ((List.rdropWhile_prefix jsIsSpace b).subset (List.mem_of_mem_head? hc))
      rw [Bool.eq_false_iff]
      intro hdigit
      rw [(visible_of_isDigit hdigit).2] at hgo
      cases hgo
    rw [hblank.trim_append, trim_digits hne hds] at hraw
    rcases envInt_cases h with ⟨hnil, -⟩ | ⟨-, hparse⟩
    · rw [hraw] at hnil
      exact absurd (List.append_eq_nil_iff.1 hnil).1 hne
    · rw [hraw, parseInt_digits hne hds hrest, Option.bind_some, safePositive] at hparse
      split_ifs at hparse
      cases hparse
      exact Int.toNat_natCast _
  · -- it stops at once
    obtain ⟨b', t, hb', rfl⟩ := exists_nextLine ha hblank
    rw [List.append_assoc, hb'.trim_append] at hraw
    have hhead : (env.raw key).head? = some nextLine := by
      rw [hraw]
      exact head_trim_of_not rfl (by decide)
    exact absurd hhead (envInt_head_ne h)

end EnvInt

/-! ## The plan on the server -/

theorem readInput_eq_ok {env : ProcessEnv} {tps durationSeconds : ℕ+} {input : Input}
    (h : readInput env tps durationSeconds = .ok input) :
    envInt env "MAX_BOOTSTRAP_TX_BYTES" 100000000 = .ok input.maxBootstrapTxBytes ∧
      envInt env "SUSTAIN_FEE" 7 = .ok input.sustainFee := by
  obtain ⟨override, -, h⟩ := bind_ok h
  obtain ⟨idle, -, h⟩ := bind_ok h
  obtain ⟨bytes, hbytes, h⟩ := bind_ok h
  obtain ⟨fee, hfee, h⟩ := bind_ok h
  cases h
  exact ⟨hbytes, hfee⟩

theorem buildFundingPlan_sustainFee {ceilSqrt : ℕ → ℕ+} {input : Input} {plan : FundingPlan}
    (h : buildFundingPlan ceilSqrt input = .ok plan) : plan.sustainFee = input.sustainFee := by
  unfold buildFundingPlan at h
  dsimp only at h
  split_ifs at h
  · cases h
  obtain ⟨fanout, -, h⟩ := bind_ok h
  obtain ⟨⟨⟩, -, h⟩ := bind_ok h
  cases h
  rfl

open Env in
/-- **The two programs read one fee.** -/
theorem sustainFee_agrees {env : ProcessEnv} {getenv : String → Bytes} {c : Logs.Config} {n : ℕ+}
    (hfee : getenv "SUSTAIN_FEE" = utf8 ((env.lookup "SUSTAIN_FEE".toList).getD []))
    (hload : load getenv = .ok c) (hkey : c.privateKey = [])
    (h : envInt env "SUSTAIN_FEE" 7 = .ok n) : c.sustainFee = n := by
  obtain ⟨-, rfl, -⟩ := (load_eq_ok getenv).1 hload
  -- both trim the same text
  have hstring := string_nil_eq getenv "SUSTAIN_FEE"
  rw [hfee, trimSpace_utf8] at hstring
  by_cases hblank : string getenv "SUSTAIN_FEE" [] = []
  · -- both take their default, which is the same without a private key
    have hprivate : string getenv "PRIVATE_KEY" [] = [] := hkey
    rw [envInt_blank h (utf8_eq_nil.1 (hstring.symm.trans hblank))]
    change value getenv parsePositiveUint64 "SUSTAIN_FEE" _ = 7
    rw [value, if_pos hblank, hprivate]
    rfl
  · -- the server has digits
    have haccepts := accepts_of_load getenv hload
      ⟨"SUSTAIN_FEE", .positiveInteger, fun raw => (parsePositiveUint64 raw).isSome⟩
      (by simp [checks]) hblank
    obtain ⟨m, hm⟩ := Option.isSome_iff_exists.1 haccepts
    obtain ⟨hunsigned, -⟩ := Option.filter_eq_some_iff.1 hm
    obtain ⟨hliteral, -⟩ := Option.filter_eq_some_iff.1 hunsigned
    rw [hstring] at hliteral
    obtain ⟨hne, hdigits, hvalue⟩ := digits_of_natLiteral hliteral
    rw [envInt_digits h rfl hne hdigits, hvalue]
    change value getenv parsePositiveUint64 "SUSTAIN_FEE" _ = m
    rw [value, if_neg hblank, hm, Option.getD_some]

open Env in
/-- **What the script prints configures the server.** When a server is started with the
variables that the script prints for a plan and with the fee that the script was given, and
has no private key, then it makes the chains of the plan, with its fanouts and its fee. -/
theorem printed_settings_load {env : ProcessEnv} {tps durationSeconds : ℕ+} {input : Input}
    (hinput : readInput env tps durationSeconds = .ok input) {ceilSqrt : ℕ → ℕ+} {plan : FundingPlan}
    (hplan : buildFundingPlan ceilSqrt input = .ok plan) {getenv : String → Bytes}
    (hprinted : ∀ var ∈ plan.serviceEnv, getenv var.1 = utf8 var.2)
    (hfee : getenv "SUSTAIN_FEE" = utf8 ((env.lookup "SUSTAIN_FEE".toList).getD [])) {c : Logs.Config}
    (hload : load getenv = .ok c) (hkey : c.privateKey = []) :
    c.numChains = plan.numChains ∧ c.fanoutSize = plan.maxFanoutSize ∧
      c.sustainFee = plan.sustainFee := by
  obtain ⟨hbytes, hfee'⟩ := readInput_eq_ok hinput
  have hplanFee := buildFundingPlan_sustainFee hplan
  have hsafe : plan.Safe := by
    refine FundingPlan.safe hplan (envInt_safe hbytes (by decide)) ?_
    rw [hplanFee]
    exact envInt_safe hfee' (by decide)
  have hcomputed := buildFundingPlan_computed hplan
  have hgives {key : String} {n : ℕ} (hget : getenv key = utf8 (decimal n)) (hpos : 0 < n)
      (hle : n ≤ maxSafeInteger) : Gives getenv parsePositiveInt key n := by
    have hrange : (0 : ℤ) < n ∧ (n : ℤ) < 2 ^ 63 := by
      rw [maxSafeInteger] at hle
      omega
    rw [utf8_decimal] at hget
    exact .of_visible hget (appendUint_ne_nil n) (visible_appendUint n)
      (parsePositiveInt_appendUint hrange)
  have hchains := hgives (hprinted ("NUM_CHAINS", decimal plan.numChains) (by simp [FundingPlan.serviceEnv]))
    hcomputed.numChains_pos hsafe.numChains
  have hfanout := hgives (hprinted ("FANOUT_SIZE", decimal plan.maxFanoutSize) (by simp [FundingPlan.serviceEnv]))
    hcomputed.fanoutSize_pos hsafe.maxFanoutSize
  refine ⟨?_, ?_, (sustainFee_agrees hfee hload hkey hfee').trans hplanFee.symm⟩
  · rw [← ((load_eq_ok getenv).1 hload).2.1]
    exact hchains.value_eq _
  · rw [← ((load_eq_ok getenv).1 hload).2.1]
    exact hfanout.value_eq _

/-- The variables of the script for the small plan. -/
def smallScriptEnv : ProcessEnv :=
  [("FANOUT_SIZE".toList, "1".toList), ("UTXO_IDLE_SECONDS".toList, "2".toList),
    ("SUSTAIN_FEE".toList, " 7 ".toList)]

/-- Those of a server. -/
def smallServerEnv (key : String) : Bytes :=
  ([("ADMIN_TOKEN", ascii "token"), ("INSTANCE_ID", ascii "runner"), ("NUM_CHAINS", ascii "2"),
    ("FANOUT_SIZE", ascii "1"), ("SUSTAIN_FEE", ascii " 7 ")].lookup key).getD []

open Concrete in
theorem printed_settings_load_small : ∃ c, Env.load smallServerEnv = .ok c ∧
    c.numChains = smallPlan.numChains ∧ c.fanoutSize = smallPlan.maxFanoutSize ∧
      c.sustainFee = smallPlan.sustainFee := by
  have hinput : readInput smallScriptEnv 1 3 = .ok smallInput := rfl
  have hplan : buildFundingPlan (fun _ => 1) smallInput = .ok smallPlan := by decide +kernel
  have hload : Env.load smallServerEnv = .ok (Env.config smallServerEnv) := by decide +kernel
  have hprinted : ∀ var ∈ smallPlan.serviceEnv, smallServerEnv var.1 = utf8 var.2 := by
    rw [FundingPlan.serviceEnv, List.forall_mem_cons, List.forall_mem_singleton]
    exact ⟨by decide +kernel, by decide +kernel⟩
  exact ⟨_, hload, printed_settings_load hinput hplan hprinted rfl hload (by decide +kernel)⟩

/-! ## Durations -/

theorem decimal_digits (n : ℕ) :
    decimal n ≠ [] ∧ (∀ c ∈ decimal n, isDigit c = true) ∧ digitsValue (decimal n) = n := by
  refine digits_of_natLiteral ?_
  rw [utf8_decimal]
  exact natLiteral_appendUint n

/-- A whole number of a unit. -/
theorem parseDurationSeconds_whole {c : Char} {unit seconds : ℕ}
    (hunit : unitSeconds [c] = some unit) (hletter : 0x41 ≤ c.toNat ∧ c.toNat < 0x7f)
    (hwhole : seconds % unit = 0) (hfit : seconds ≤ 2 ^ 53) :
    parseDurationSeconds (decimal (seconds / unit) ++ [c]) = seconds := by
  obtain ⟨hne, hds, hvalue⟩ := decimal_digits (seconds / unit)
  have hdigit : isDigit c = false := by
    rw [Bool.eq_false_iff, isDigit]
    simp only [ne_eq, Bool.and_eq_true, decide_eq_true_eq]
    omega
  have hspace : jsIsSpace c = false := by
    rw [Bool.eq_false_iff, jsIsSpace]
    simp only [ne_eq, Bool.or_eq_true, Bool.and_eq_true, decide_eq_true_eq]
    omega
  have hfraction : takeFraction [c] = ([], [c]) := by
    rw [takeFraction]
    intro t ht
    cases ht
    exact absurd hletter (by decide)
  have htake : (decimal (seconds / unit) ++ [c]).takeWhile isDigit = decimal (seconds / unit) :=
    takeWhile_digits hds (by simpa using hdigit)
  have hdrop : (decimal (seconds / unit) ++ [c]).dropWhile isDigit = [c] := by
    rw [List.dropWhile_append_of_pos hds, List.dropWhile_cons_of_neg (by simp [hdigit])]
  have hblank : [c].dropWhile jsIsSpace = [c] := List.dropWhile_cons_of_neg (by simp [hspace])
  rw [parseDurationSeconds, htake, hdrop, hfraction]
  dsimp only
  rw [hblank, hunit]
  dsimp only
  -- neither the number nor the product is rounded
  have hproduct : seconds / unit * unit = seconds := Nat.div_mul_cancel (Nat.dvd_of_mod_eq_zero hwhole)
  rw [if_neg hne, List.append_nil, hvalue, List.length_nil, pow_zero, div_one,
    Binary64.round_natCast ((Nat.div_le_self _ _).trans hfit), ← Nat.cast_mul, hproduct,
    Binary64.round_natCast hfit, Int.ceil_natCast, Int.toNat_natCast]

/-- **A duration that is printed can be entered.** -/
theorem duration_round_trip {seconds : ℕ} (h : seconds ≤ maxSafeInteger) :
    parseDurationSeconds (formatDuration seconds) = seconds := by
  have hfit : seconds ≤ 2 ^ 53 := by
    rw [maxSafeInteger] at h
    omega
  rw [formatDuration]
  split_ifs with hdays hhours hminutes
  · exact parseDurationSeconds_whole rfl (by decide) hdays hfit
  · exact parseDurationSeconds_whole rfl (by decide) hhours hfit
  · exact parseDurationSeconds_whole rfl (by decide) hminutes hfit
  · have hseconds := parseDurationSeconds_whole (c := 's') rfl (by decide) (Nat.mod_one seconds) hfit
    rwa [Nat.div_one] at hseconds

theorem duration_round_trip_tenDays : parseDurationSeconds (formatDuration 864000) = 864000 :=
  duration_round_trip (by decide)

end TxGen.Funding
