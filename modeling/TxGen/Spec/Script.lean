import TxGen.Lib.Utf8
import TxGen.Spec.Tag

/-!
# The lock script, byte by byte

`internal/txbuilder/script.go`. A Go string is a list of bytes, valid UTF-8 or not:
`TxGen.Spec.Tag` has the same functions for valid ones.

`strings.TrimSpace` goes over the characters from the front and then from the end; its
shortcut for ASCII gives the same and is left out.
-/

namespace TxGen.Script

open Lib

/-- How `lockScriptTag` can fail: with an error, or in a panic. -/
inductive TagFault
  | instanceIDRequired
  | indexOutOfRange
  deriving DecidableEq, Repr

/-- `strings.TrimSpace`. -/
def trimSpace (s : Bytes) : Bytes := Utf8.trim goIsSpace s

/-- `copy(tag[offset:], encoded)`. -/
def copyAt (tag : Bytes) (offset : ℕ) (encoded : Bytes) : Except TagFault Bytes :=
  if offset > tag.length then .error .indexOutOfRange
  else .ok (tag.take offset ++ (encoded.take (tag.length - offset) ++
    tag.drop (offset + encoded.length)))

/-- The loop of `lockScriptTag` over the characters. -/
def copyLoop (tag : Bytes) (offset : ℕ) : List Char → Except TagFault Bytes
  | [] => .ok tag
  | r :: rest =>
    let encoded := encodeRune r
    if offset + encoded.length > tag.length then .ok tag
    else do
      let tag ← copyAt tag offset encoded
      let offset := offset + encoded.length
      if offset = tag.length then .ok tag else copyLoop tag offset rest

/-- `lockScriptTag`. -/
def lockScriptTag (instanceID : Bytes) : Except TagFault Bytes :=
  let tag := List.replicate lockScriptTagBytes 0x20
  let value := trimSpace instanceID
  if value = [] then .error .instanceIDRequired else copyLoop tag 0 (Utf8.runes value)

/-- `TaggedDropLockScript`. -/
def taggedDropLockScript (instanceID : Bytes) : Except TagFault Bytes := do
  let tag ← lockScriptTag instanceID
  return Fin.ofNat 256 lockScriptTagBytes :: tag ++ [opDROP]

end TxGen.Script
