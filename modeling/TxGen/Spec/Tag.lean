import TxGen.Lib.Text
import TxGen.Spec.Tx

/-!
# The instance tag

The tagged-drop lock script pushes the instance id as exactly six bytes. Two programs
compute it from the environment variable `INSTANCE_ID`: the server
(`internal/config`, `internal/txbuilder/script.go`) and the funding script
(`scripts/initial-funding.ts`). Both trim the value, copy whole characters while they
fit and fill up with spaces; each trims with the whitespace of its own language.

A string is a list of Unicode scalar values.
-/

namespace TxGen

open Lib

/-- Why a program refuses the instance id. -/
inductive TagError
  | instanceIDRequired
  deriving DecidableEq, Repr

/-- U+FEFF, the byte order mark. -/
def byteOrderMark : Char := Char.ofNat 0xfeff

/-- U+0085, the next-line control. -/
def nextLine : Char := Char.ofNat 0x85

/-- `unicode.IsSpace`, the characters `strings.TrimSpace` strips: the controls from tab
to carriage return, the space, the next-line control and the no-break space of Latin-1,
and above it those with the property `White_Space`. -/
def goIsSpace (r : Char) : Bool :=
  let n := r.toNat
  (0x09 ≤ n && n ≤ 0x0d) || n = 0x20 || n = 0x85 || n = 0xa0 ||
    n = 0x1680 || (0x2000 ≤ n && n ≤ 0x200a) || n = 0x2028 || n = 0x2029 || n = 0x202f ||
    n = 0x205f || n = 0x3000

/-- The characters `String.prototype.trim` strips: tab, vertical tab, form feed, the
byte order mark, the space separators, and the line terminators. -/
def jsIsSpace (c : Char) : Bool :=
  let n := c.toNat
  n = 0x09 || n = 0x0b || n = 0x0c || n = 0xfeff ||
    (n = 0x20 || n = 0xa0 || n = 0x1680 || (0x2000 ≤ n && n ≤ 0x200a) || n = 0x202f ||
      n = 0x205f || n = 0x3000) ||
    (n = 0x0a || n = 0x0d || n = 0x2028 || n = 0x2029)

/-- The length of the tag. -/
def lockScriptTagBytes : ℕ := 6

/-- The opcode that drops the tag. -/
def opDROP : Fin 256 := 0x75

/-- The UTF-8 encoding of a character. -/
def encodeRune (r : Char) : Bytes := (String.utf8EncodeChar r).map UInt8.toFin

/-- The loop of both programs over the characters of the trimmed value, with the bytes
copied so far. -/
def copyRunes (tag : Bytes) : List Char → Bytes
  | [] => tag
  | r :: rest =>
    let encoded := encodeRune r
    if tag.length + encoded.length > lockScriptTagBytes then tag
    else
      let tag' := tag ++ encoded
      if tag'.length = lockScriptTagBytes then tag' else copyRunes tag' rest

/-- A tag is filled with spaces before anything is copied into it. -/
def fillTag (value : List Char) : Bytes := pad 0x20 lockScriptTagBytes (copyRunes [] value)

/-! ## The server -/

/-- `reader.string`: the trimmed value of a variable, or `dflt` when it is empty. -/
def readString (value dflt : List Char) : List Char :=
  let v := trim goIsSpace value
  if v ≠ [] then v else dflt

/-- `lockScriptTag`: the instance id as exactly six bytes. -/
def lockScriptTag (instanceID : List Char) : Except TagError Bytes :=
  let value := trim goIsSpace instanceID
  if value = [] then .error .instanceIDRequired else .ok (fillTag value)

/-- `TaggedDropLockScript`: push the tag and drop it. -/
def taggedDropLockScript (instanceID : List Char) : Except TagError Bytes := do
  let tag ← lockScriptTag instanceID
  return Fin.ofNat 256 lockScriptTagBytes :: tag ++ [opDROP]

/-- The instance id as `config.Load` reads it. -/
def loadInstanceID (env : List Char) : Except TagError (List Char) :=
  let instanceID := readString env []
  if instanceID = [] then .error .instanceIDRequired else .ok instanceID

/-- The lock script of a server started with `INSTANCE_ID` set to `env`. -/
def serverLockScript (env : List Char) : Except TagError Bytes :=
  loadInstanceID env >>= taggedDropLockScript

/-! ## The funding script -/

/-- `requiredEnv`: the trimmed value of a variable that must not be blank. -/
def requiredEnv (env : List Char) : Except TagError (List Char) :=
  let value := trim jsIsSpace env
  if value = [] then .error .instanceIDRequired else .ok value

/-- `normalizeInstanceID`. -/
def normalizeInstanceID (value : List Char) : Bytes := fillTag (trim jsIsSpace value)

/-- The locking script of the funding output: the tag as a push, and `OP_DROP`. -/
def fundingLockScript (env : List Char) : Except TagError Bytes := do
  let instanceID ← requiredEnv env
  let tagBytes := normalizeInstanceID instanceID
  return Fin.ofNat 256 tagBytes.length :: tagBytes ++ [opDROP]

end TxGen
