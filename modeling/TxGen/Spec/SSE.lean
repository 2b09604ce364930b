import TxGen.Lib.Lines
import TxGen.Spec.Tx

/-!
# Server-sent events

`internal/sse`: how `connect` reads one stream. The body is cut into lines by a
`bufio.Scanner` with a buffer of `maxEventBytes`; the data of an event collects in a
`strings.Builder` until a blank line dispatches it to the handler, and once more when
the scan has ended, for whatever reason.

The second part is the format itself, independent of the reader: which texts serialize
a list of events.
-/

namespace TxGen.SSE

open Lib

/-- The ends of lines. -/
def lineFeed : Fin 256 := 10

def carriageReturn : Fin 256 := 13

/-- The size of the scanner's buffer. -/
def maxEventBytes : ℕ := 2 ^ 20

/-- `dropCR` of `bufio`: the line without one carriage return at its end. -/
def dropCR (line : Bytes) : Bytes :=
  if line.getLast? = some carriageReturn then line.dropLast else line

/-- `data:` -/
def dataPrefix : Bytes := [100, 97, 116, 97, 58]

/-- `strings.CutPrefix`. -/
def cutPrefix (pre s : Bytes) : Option Bytes :=
  if pre <+: s then some (s.drop pre.length) else none

/-- `strings.TrimPrefix`. -/
def trimPrefix (pre s : Bytes) : Bytes := (cutPrefix pre s).getD s

/-- `strings.TrimSuffix`. -/
def trimSuffix (suf s : Bytes) : Bytes :=
  if suf <:+ s then s.take (s.length - suf.length) else s

/-! ## Reading a stream -/

/-- The event being collected, and the payloads the handler was called with. -/
structure Reader where
  event : Bytes
  handled : List Bytes
  deriving DecidableEq

namespace Reader

def start : Reader := ⟨[], []⟩

/-- `dispatch`: hand the event over, if there is one. -/
def dispatch (r : Reader) : Reader :=
  if r.event = [] then r
  else ⟨[], r.handled ++ [trimSuffix [lineFeed] r.event]⟩

/-- One line of the scanner. -/
def line (r : Reader) (text : Bytes) : Reader :=
  if text = [] then r.dispatch
  else match cutPrefix dataPrefix text with
    | some data => { r with event := r.event ++ trimPrefix [32] data ++ [lineFeed] }
    | none => r

end Reader

/-- The scanner at the end of the body. -/
def scan (chunks : List Bytes) : Scanner (Fin 256) :=
  Scanner.start.feedAll lineFeed maxEventBytes chunks

/-- The lines that `scanner.Text` returns, one after the other. -/
def scanned (chunks : List Bytes) : List Bytes := (scan chunks).close.map dropCR

/-- The reader after some of the lines. -/
def readLines (texts : List Bytes) : Reader := texts.foldl Reader.line Reader.start

/-- The payloads that `connect` hands to its handler, in order, for a body delivered in
`chunks`. -/
def connect (chunks : List Bytes) : List Bytes := (readLines (scanned chunks)).dispatch.handled

/-! ## The format -/

/-- The fields of an event other than its data. -/
inductive Field
  | id
  | event
  | retry
  deriving DecidableEq, Repr

def Field.name : Field → Bytes
  | .id => [105, 100]
  | .event => [101, 118, 101, 110, 116]
  | .retry => [114, 101, 116, 114, 121]

/-- A line of the format: a line of data, with a space before it or not, a comment, a
field with or without a value, or a blank line. -/
inductive Line
  | data (space : Bool) (text : Bytes)
  | comment (text : Bytes)
  | field (f : Field) (value : Option Bytes)
  | blank
  deriving DecidableEq, Repr

/-- A line and whether it ends in CRLF. -/
structure Ended where
  line : Line
  crlf : Bool
  deriving DecidableEq, Repr

/-- What a line may hold: no end of a line, and data that starts with a space has one
before it. -/
def Line.Ok : Line → Prop
  | .data space text => lineFeed ∉ text ∧ carriageReturn ∉ text ∧
      (text.head? = some 32 → space = true)
  | .comment text => lineFeed ∉ text
  | .field _ value => ∀ text ∈ value, lineFeed ∉ text
  | .blank => True

instance Line.decidableOk : ∀ l : Line, Decidable l.Ok
  | .data space text => inferInstanceAs (Decidable (lineFeed ∉ text ∧ carriageReturn ∉ text ∧
      (text.head? = some 32 → space = true)))
  | .comment text => inferInstanceAs (Decidable (lineFeed ∉ text))
  | .field _ value => inferInstanceAs (Decidable (∀ text ∈ value, lineFeed ∉ text))
  | .blank => inferInstanceAs (Decidable True)

/-- The bytes of a line. -/
def Line.bytes : Line → Bytes
  | .data space text => dataPrefix ++ ((if space then [32] else []) ++ text)
  | .comment text => 58 :: text
  | .field f none => f.name
  | .field f (some text) => f.name ++ 58 :: text
  | .blank => []

/-- The bytes of a line before its LF. -/
def Ended.bytes (l : Ended) : Bytes := l.line.bytes ++ if l.crlf then [carriageReturn] else []

/-- The bytes of a list of lines. -/
def encode (ls : List Ended) : Bytes := ls.flatMap fun l => l.bytes ++ [lineFeed]

/-- Lines that add nothing to an event. -/
def Line.Idle : Line → Prop
  | .comment _ | .field .. => True
  | _ => False

/-- The lines of one event: its data, with comments and other fields in between. -/
inductive Block : List Bytes → List Ended → Prop
  | nil : Block [] []
  | data (space crlf : Bool) (text : Bytes) {texts : List Bytes} {ls : List Ended} :
      Block texts ls → Block (text :: texts) (⟨.data space text, crlf⟩ :: ls)
  | idle (l : Ended) {texts : List Bytes} {ls : List Ended} :
      l.line.Idle → Block texts ls → Block texts (l :: ls)

/-- The lines that serialize a list of events: blocks with a blank line after each, the
last one perhaps left out, and blank lines, comments and fields anywhere between them. -/
inductive Serializes : List (List Bytes) → List Ended → Prop
  | nil : Serializes [] []
  | gap (l : Ended) {events : List (List Bytes)} {ls : List Ended} :
      l.line.Idle ∨ l.line = .blank → Serializes events ls → Serializes events (l :: ls)
  | last {texts : List Bytes} {ls : List Ended} :
      texts ≠ [] → Block texts ls → Serializes [texts] ls
  | event (crlf : Bool) {texts : List Bytes} {ls : List Ended} {events : List (List Bytes)}
      {rest : List Ended} : texts ≠ [] → Block texts ls → Serializes events rest →
      Serializes (texts :: events) (ls ++ ⟨.blank, crlf⟩ :: rest)

/-- The lines of an event joined by a newline. -/
def joined (texts : List Bytes) : Bytes := [lineFeed].intercalate texts

end TxGen.SSE
