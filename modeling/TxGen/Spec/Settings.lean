import TxGen.Lib.Binary64
import TxGen.Spec.Funding
import TxGen.Spec.Store

/-!
# The settings of the funding script

What `scripts/initial-funding.ts` reads before it makes a plan, and what it prints: the
file `.env`, the variables of its environment, and durations. Texts are lists of
characters. A number that is printed is an integer below `2 ^ 53`.
-/

namespace TxGen.Funding

open Lib

/-- `${n}` for a number. -/
def decimal (n : ℕ) : List Char := (appendUint n).map fun b => Char.ofNat b.val

def isDigit (c : Char) : Bool := 0x30 ≤ c.toNat && c.toNat ≤ 0x39

/-- The number that digits stand for. -/
def digitsValue (ds : List Char) : ℕ := ds.foldl (fun n c => n * 10 + (c.toNat - 0x30)) 0

/-! ## The file -/

/-- `process.env`: the variables and their values. -/
abbrev ProcessEnv := List (List Char × List Char)

def quotes : List Char := "\"'".toList

/-- A value begins and ends with the same quote. -/
def isQuoted (value : List Char) : Bool :=
  quotes.any fun q => value.head? = some q && value.getLast? = some q

/-- `unquoteEnvValue`. A quote alone is taken for a pair. -/
def unquoteEnvValue (value : List Char) : List Char :=
  if isQuoted value then (value.drop 1).dropLast else value

def exportWord : List Char := "export ".toList

/-- A variable that is set is not set again. -/
def ProcessEnv.assign (env : ProcessEnv) (var : List Char × List Char) : ProcessEnv :=
  if (env.lookup var.1).isSome then env else env ++ [var]

/-- `.. must be a positive integer` -/
structure NotPositive where
  key : String
  deriving DecidableEq, Repr

/-- The number at the front of a text, if there is one. -/
def leadingNumber (s : List Char) : Option ℕ :=
  if s.takeWhile isDigit = [] then none else some (digitsValue (s.takeWhile isDigit))

/-- `Number.parseInt` with the radix 10, which is `NaN` when there is no digit. Past `2 ^ 53`
the number is rounded, which is not safe either way. -/
def parseInt (s : List Char) : Option ℤ :=
  match s.dropWhile jsIsSpace with
  | '-' :: t => (leadingNumber t).map fun n : ℕ => -(n : ℤ)
  | '+' :: t => (leadingNumber t).map Nat.cast
  | t => (leadingNumber t).map Nat.cast

/-- `Number.isSafeInteger(parsed) && parsed > 0` -/
def safePositive (n : ℤ) : Option ℕ+ :=
  if h : 0 < n ∧ n ≤ maxSafeInteger then some ⟨n.toNat, Int.pos_iff_toNat_pos.1 h.1⟩ else none

/-- The trimmed value of a variable; it is empty when there is none. -/
def ProcessEnv.raw (env : ProcessEnv) (key : String) : List Char :=
  trim jsIsSpace ((env.lookup key.toList).getD [])

/-- `envOptionalInt`. -/
def envOptionalInt (env : ProcessEnv) (key : String) : Except NotPositive (Option ℕ+) :=
  let raw := env.raw key
  if raw = [] then .ok none
  else
    match (parseInt raw).bind safePositive with
    | none => .error ⟨key⟩
    | some n => .ok (some n)

/-- `envInt`. -/
def envInt (env : ProcessEnv) (key : String) (fallback : ℕ+) : Except NotPositive ℕ+ :=
  let raw := env.raw key
  if raw = [] then .ok fallback
  else
    match (parseInt raw).bind safePositive with
    | none => .error ⟨key⟩
    | some n => .ok n

/-- What `main` reads of its environment before it asks for the rate and the duration. -/
def readInput (env : ProcessEnv) (tps durationSeconds : ℕ+) : Except NotPositive Input := do
  let fanoutSizeOverride ← envOptionalInt env "FANOUT_SIZE"
  let utxoIdleSeconds ← envInt env "UTXO_IDLE_SECONDS" 600
  let maxBootstrapTxBytes ← envInt env "MAX_BOOTSTRAP_TX_BYTES" 100000000
  let sustainFee ← envInt env "SUSTAIN_FEE" 7
  return { tps, durationSeconds, fanoutSizeOverride, utxoIdleSeconds, maxBootstrapTxBytes, sustainFee }

/-- What `printPlan` prints as `service env`. -/
def FundingPlan.serviceEnv (plan : FundingPlan) : List (String × List Char) :=
  [("NUM_CHAINS", decimal plan.numChains), ("FANOUT_SIZE", decimal plan.maxFanoutSize)]

/-! ## Durations -/

/-- The seconds of a unit, which may be a capital; without one they are seconds. -/
def unitSeconds : List Char → Option ℕ
  | [] => some 1
  | [c] =>
    if c = 's' ∨ c = 'S' then some 1
    else if c = 'm' ∨ c = 'M' then some 60
    else if c = 'h' ∨ c = 'H' then some 3600
    else if c = 'd' ∨ c = 'D' then some 86400
    else none
  | _ => none

/-- The digits of a fraction and what follows, when there is a point with digits behind it. -/
def takeFraction : List Char → List Char × List Char
  | '.' :: t =>
    if t.takeWhile isDigit = [] then ([], '.' :: t) else (t.takeWhile isDigit, t.dropWhile isDigit)
  | t => ([], t)

/-- `parseDurationSeconds`, which is 0 when the text does not match
`/^(\d+(?:\.\d+)?)\s*([smhd]?)$/i`. -/
def parseDurationSeconds (value : List Char) : ℕ :=
  let whole := value.takeWhile isDigit
  let fraction := takeFraction (value.dropWhile isDigit)
  match unitSeconds (fraction.2.dropWhile jsIsSpace) with
  | none => 0
  | some multiplier =>
    if whole = [] then 0
    else
      let amount : ℚ := digitsValue (whole ++ fraction.1) / 10 ^ fraction.1.length
      ⌈Binary64.round (Binary64.round amount * multiplier)⌉.toNat

/-- `formatDuration`. -/
def formatDuration (seconds : ℕ) : List Char :=
  if seconds % 86400 = 0 then decimal (seconds / 86400) ++ ['d']
  else if seconds % 3600 = 0 then decimal (seconds / 3600) ++ ['h']
  else if seconds % 60 = 0 then decimal (seconds / 60) ++ ['m']
  else decimal seconds ++ ['s']

end TxGen.Funding
