import TxGen.Lib.Unmarshal
import TxGen.Spec.Funding
import TxGen.Spec.Restore
import TxGen.Spec.Script
import TxGen.Spec.Server

/-!
# Admin requests on the wire

From the bytes of a `POST` to what the handlers of `internal/server` make of it: the
bearer token, the content type, and the body, of which `encoding/json` decodes the first
value into a `configRequest`. At the other end, the request with which
`scripts/initial-funding.ts` configures the server for its plan.
-/

namespace TxGen

open Lib

/-! ## What is not code of the repository -/

/-- Functions of the standard library: `sha256.Sum256`, and the media type that
`mime.ParseMediaType` finds in a content type. -/
structure Library where
  sha256 : Bytes → Bytes
  mediaType : Bytes → Option Bytes
  mediaType_json : mediaType (ascii "application/json") = some (ascii "application/json")

/-! ## The server -/

def maxConfigBodyBytes : ℕ := 1024

/-- The fields of a `configRequest` with their names in JSON. -/
def ConfigRequest.fields : List (RecordField ConfigRequest) :=
  [.of "tps" tps (fun r tps => { r with tps }) (intoPointer 0 (intoNumber (signed 64))),
    .of "numChains" numChains (fun r numChains => { r with numChains })
      (intoPointer 0 (intoNumber (signed 64))),
    .of "fanoutSize" fanoutSize (fun r fanoutSize => { r with fanoutSize })
      (intoPointer 0 (intoNumber (signed 64))),
    .of "sustainFee" sustainFee (fun r sustainFee => { r with sustainFee })
      (intoPointer 0 (intoNumber (unsigned 64)))]

def ConfigRequest.zero : ConfigRequest := ⟨none, none, none, none⟩

/-- The end of a value shows by a bracket. -/
def bracketed : Json → Bool
  | .array _ | .object _ => true
  | _ => false

/-- `Decode` of the body behind `MaxBytesReader`: the first value, if it ends within the
limit. Of a longer body no end is seen, so that another value must have something behind
it. -/
def decodeConfig (body : Bytes) : Option ConfigRequest :=
  match Json.value maxNestingDepth (body.take maxConfigBodyBytes) with
  | none => none
  | some (v, rest) =>
    if bracketed v ∨ rest ≠ [] ∨ body.length ≤ maxConfigBodyBytes then
      intoRecord ConfigRequest.fields .zero v
    else none

/-- `strings.CutPrefix`. -/
def cut (pre s : Bytes) : Option Bytes :=
  if pre.isPrefixOf s then some (s.drop pre.length) else none

/-- `authorized`: the token of an `Authorization` header, compared by its hash. -/
def authorized (lib : Library) (adminToken header : Bytes) : Bool :=
  match cut (ascii "Bearer ") header with
  | none => false
  | some token =>
    token ≠ [] && adminToken ≠ [] && lib.sha256 token = lib.sha256 adminToken

/-- `ADMIN_TOKEN` as `config.Load` reads it. -/
def loadAdminToken (env : Bytes) : Bytes := Script.trimSpace env

/-- A request: the headers the handlers look at, and the body. -/
structure HttpPost where
  route : Route
  authorization : Bytes
  contentType : Bytes
  body : Bytes
  deriving DecidableEq, Repr

/-- What the handlers make of it. -/
def HttpPost.decoded (lib : Library) (adminToken : Bytes) (p : HttpPost) : Post where
  route := p.route
  authorized := authorized lib adminToken p.authorization
  jsonType := lib.mediaType p.contentType = some (ascii "application/json")
  body := decodeConfig p.body

/-- What happens to the service, with requests as they come in. -/
inductive WireEvent (Hash : Type)
  | start (o : Options Hash) (initial : List UTXO) (maxTPS : ℤ)
  | engine (e : Event Hash)
  | post (p : HttpPost)
  | handle (i : ℕ)

def WireEvent.decoded {Hash : Type} (lib : Library) (adminToken : Bytes) :
    WireEvent Hash → ServiceEvent Hash
  | .start o initial maxTPS => .start o initial maxTPS
  | .engine e => .engine e
  | .post p => .post (p.decoded lib adminToken)
  | .handle i => .handle i

/-! ## The script -/

namespace Funding

/-- A member of an object that `JSON.stringify` writes for a number. -/
def stringifyMember (m : String × ℕ) : Bytes :=
  Json.quote :: (ascii m.1 ++ Json.quote :: Json.colon :: appendUint m.2)

/-- `JSON.stringify` of an object of numbers. -/
def stringify (members : List (String × ℕ)) : Bytes :=
  Json.lbrace :: ([Json.comma].intercalate (members.map stringifyMember) ++ [Json.rbrace])

/-- `txGenConfigPayload`. -/
def txGenConfigPayload (plan : FundingPlan) : Except PlanError (List (String × ℕ)) := do
  let sustainFee ← toSafeSatoshiNumber plan.sustainFee
  return [("tps", plan.tps), ("numChains", plan.numChains), ("fanoutSize", plan.maxFanoutSize),
    ("sustainFee", sustainFee)]

/-- The bytes `fetch` sends for the value of a header: each character is one byte, and there
is no line break and no null among them. -/
def headerBytes (s : List Char) : Option Bytes :=
  if s.all fun c => c.toNat < 256 && c ≠ '\x00' && c ≠ '\n' && c ≠ '\r' then
    some (s.map fun c => Fin.ofNat 256 c.toNat)
  else none

/-- Why the script sends no request.

* `noToken`: `ADMIN_TOKEN is not set`
* `plan`: the payload cannot be made
* `header`: `fetch` refuses the header -/
inductive ApplyError
  | noToken
  | plan (e : PlanError)
  | header
  deriving DecidableEq, Repr

/-- `maybeApplyTxGenConfig`, when the user agrees: the request for `/config`. -/
def applyTxGenConfig (adminTokenEnv : List Char) (plan : FundingPlan) :
    Except ApplyError HttpPost := do
  let adminToken := trim jsIsSpace adminTokenEnv
  if adminToken = [] then throw .noToken
  let payload ← (txGenConfigPayload plan).mapError .plan
  match headerBytes ("Bearer ".toList ++ adminToken) with
  | none => throw .header
  | some authorization =>
    return ⟨.config, authorization, ascii "application/json", stringify payload⟩

end Funding

end TxGen
