import TxGen.Lib.Unmarshal
import TxGen.Spec.Logs
import TxGen.Spec.Tag

/-!
# Looking up unspent outputs

`Client.FetchUTXOs` of `internal/woc`: asks WhatsOnChain for the unspent outputs of a
script, again and again as long as it fails for a while, and decodes the listing.

What a request is answered, whether the context is done and how the sleep after an attempt
ends come from outside (`Turn`). Logs are left out.
-/

namespace TxGen.WoC

open Lib

def defaultBaseURL : Bytes := ascii "https://api.whatsonchain.com/v1/bsv/main"

/-- The size up to which a listing is read. -/
def maxResponseBytes : ℕ := 2 ^ 25

def maxErrorBytes : ℕ := 4096

/-- `Options`. -/
structure Options where
  baseURL : Bytes
  retryMax : ℤ
  deriving DecidableEq, Repr

/-- `Client`. -/
structure Client where
  baseURL : Bytes
  retryMax : ℤ
  deriving DecidableEq, Repr

/-- `New`. -/
def new (opts : Options) : Client where
  baseURL := Logs.trimRight 47 (if opts.baseURL = [] then defaultBaseURL else opts.baseURL)
  retryMax := max opts.retryMax 1

/-! ## The listing -/

/-- `wocUTXO`. -/
structure WocUTXO where
  height : ℤ
  txHash : List Char
  txPos : ℕ
  value : ℕ
  deriving DecidableEq, Repr

def WocUTXO.zero : WocUTXO := ⟨0, [], 0, 0⟩

def WocUTXO.fields : List (RecordField WocUTXO) :=
  [.of "height" height (fun u height => { u with height }) (intoNumber (signed 64)),
    .of "tx_hash" txHash (fun u txHash => { u with txHash }) intoString,
    .of "tx_pos" txPos (fun u txPos => { u with txPos }) (intoNumber (unsigned 32)),
    .of "value" value (fun u value => { u with value }) (intoNumber (unsigned 64))]

/-- The UTXO of an entry. -/
def WocUTXO.utxo (u : WocUTXO) : UTXO := ⟨u.txHash.flatMap encodeRune, u.txPos, u.value, u.height⟩

/-- `unspentResponse`. -/
structure UnspentResponse where
  result : Slice WocUTXO
  error : List Char
  deriving DecidableEq, Repr

def UnspentResponse.zero : UnspentResponse := ⟨.empty, []⟩

def UnspentResponse.fields : List (RecordField UnspentResponse) :=
  [.of "result" result (fun r result => { r with result })
      (intoSlice .zero (intoRecord WocUTXO.fields)),
    .of "error" error (fun r error => { r with error }) intoString]

/-! ## One lookup -/

/-- The errors of `FetchUTXOs`.

* `build`: `build request: ..`
* `transport`: `whatsonchain request: ..`
* `read`: `read whatsonchain response: ..`
* `status`: `whatsonchain request failed: HTTP ..: ..`
* `decode`: `decode whatsonchain response: ..`
* `reported`: `whatsonchain request failed: ..`
* `context`: the error of the context -/
inductive FetchError
  | build (cause : Bytes)
  | transport (cause : Bytes)
  | read (cause : Bytes)
  | status (code : ℕ) (body : Bytes)
  | decode
  | reported (text : List Char)
  | context
  deriving DecidableEq, Repr

/-- How `http.Client.Do` ends: with an error, or with a status, what can be read of the
body, and the error that then ends it, if one does. -/
inductive Answer
  | failed (cause : Bytes)
  | response (status : ℕ) (body : Bytes) (cut : Option Bytes)
  deriving DecidableEq, Repr

/-- An attempt: what the request is answered, whether the context is done when it is
looked at, and whether the sleep afterwards runs its time. -/
structure Turn where
  answer : Answer
  done : Bool
  slept : Bool
  deriving DecidableEq, Repr

/-- The listing in a body, or the error and that it is not retryable. -/
def decodeListing (body : Bytes) : Except (Bool × FetchError) (List UTXO) :=
  match unmarshal .zero (intoRecord UnspentResponse.fields) body with
  | none => .error (false, .decode)
  | some envelope =>
    if envelope.error ≠ [] then .error (false, .reported envelope.error)
    else .ok (envelope.result.items.map WocUTXO.utxo)

/-- `fetchOnce`: the UTXOs, or the error and whether it is retryable. Behind the
`LimitReader` no more is seen of a body, nor how it ends. -/
def fetchOnce (parseError : Bytes → Option Bytes) (url : Bytes) (t : Turn) :
    Except (Bool × FetchError) (List UTXO) :=
  match parseError url with
  | some cause => .error (false, .build cause)
  | none =>
    match t.answer with
    | .failed cause => .error (!t.done, .transport cause)
    | .response status body cut =>
      match if body.length < maxResponseBytes then cut else none with
      | some cause => .error (true, .read cause)
      | none =>
        let body := body.take maxResponseBytes
        if status ≠ 200 then
          .error (status = 429 ∨ status ≥ 500, .status status (body.take maxErrorBytes))
        else decodeListing body

/-! ## Retries -/

/-- The loop of `FetchUTXOs` from an attempt on, with `left` more to come. -/
def fetchFrom (once : Turn → Except (Bool × FetchError) (List UTXO)) (turn : ℕ → Turn) :
    ℕ → ℕ → Except FetchError (List UTXO)
  | 0, attempt => (once (turn attempt)).mapError Prod.snd
  | left + 1, attempt =>
    match once (turn attempt) with
    | .ok utxos => .ok utxos
    | .error (retryable, err) =>
      if ¬retryable then .error err
      else if (turn attempt).slept then fetchFrom once turn left (attempt + 1)
      else .error .context

/-- `FetchUTXOs`. -/
def Client.fetchUTXOs (parseError : Bytes → Option Bytes) (c : Client) (scriptHash : Bytes)
    (turn : ℕ → Turn) : Except FetchError (List UTXO) :=
  let url := c.baseURL ++ ascii "/script/" ++ scriptHash ++ ascii "/unspent/all"
  fetchFrom (fetchOnce parseError url) turn (c.retryMax - 1).toNat 1

end TxGen.WoC
