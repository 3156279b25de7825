import SketchPreview.Decimal.Layout
import SketchPreview.Text.Quoted

/-!
What can be wrong with a JSON text, and where.  A fault says how many bytes of the text were still
unread; line and column are computed from that only when the message is written.
-/

namespace SketchPreview
namespace Json

/-- What a reader of values expects. -/
inductive Shape where
  | boolean
  | list
  | text
  | path
  | word32
  | word64
  | record (name : String)
deriving DecidableEq

def Shape.phrase : Shape → String
  | .boolean => "a boolean"
  | .list => "a sequence"
  | .text => "a string"
  | .path => "path string"
  | .word32 => "u32"
  | .word64 => "u64"
  | .record name => s!"struct {name}"

/-- What a reader found instead. -/
inductive Found where
  | null
  | boolean (b : Bool)
  | integer (n : Int)
  /-- A number with a fraction or an exponent, or beyond the integers, as the bits of a double. -/
  | real (bits : UInt64)
  | text (t : Text)
  | list
  | object
deriving DecidableEq

def Found.phrase : Found → String
  | .null => "null"
  | .boolean b => s!"boolean `{b}`"
  | .integer n => s!"integer `{n}`"
  | .real bits =>
    let digits := String.ofList (Decimal.report.double bits)
    s!"floating point `{digits}`"
  | .text t =>
    let quoted := String.ofList (Text.quoted t)
    s!"string {quoted}"
  | .list => "sequence"
  | .object => "map"

inductive Reason where
  | endInValue
  | endInList
  | endInObject
  | endInText
  | expectedValue
  /-- A word that begins like `true`, `false` or `null` and goes on differently. -/
  | expectedWord
  | expectedColon
  | expectedCommaOrBracket
  | expectedCommaOrBrace
  | trailingComma
  | keyNotText
  | trailingCharacters
  | invalidNumber
  | numberOutOfRange
  | invalidEscape
  | loneSurrogate
  /-- A surrogate that a second one must follow, and does not. -/
  | unpairedSurrogate
  | controlCharacter
  | duplicateField (name : Text)
  | missingField (name : Text)
  | wrongType (found : Found) (expected : Shape)
  | wrongInteger (n : Int) (expected : Shape)
  /-- A list with `length` elements in place of a record of `fields`. -/
  | shortList (length : Nat) (expected : Shape) (fields : Nat)
deriving DecidableEq

def Reason.message : Reason → String
  | .endInValue => "EOF while parsing a value"
  | .endInList => "EOF while parsing a list"
  | .endInObject => "EOF while parsing an object"
  | .endInText => "EOF while parsing a string"
  | .expectedValue => "expected value"
  | .expectedWord => "expected ident"
  | .expectedColon => "expected `:`"
  | .expectedCommaOrBracket => "expected `,` or `]`"
  | .expectedCommaOrBrace => "expected `,` or `\x7d`"
  | .trailingComma => "trailing comma"
  | .keyNotText => "key must be a string"
  | .trailingCharacters => "trailing characters"
  | .invalidNumber => "invalid number"
  | .numberOutOfRange => "number out of range"
  | .invalidEscape => "invalid escape"
  | .loneSurrogate => "lone leading surrogate in hex escape"
  | .unpairedSurrogate => "unexpected end of hex escape"
  | .controlCharacter => "control character (\\u0000-\\u001F) found while parsing a string"
  | .duplicateField name =>
    let name := String.ofList name
    s!"duplicate field `{name}`"
  | .missingField name =>
    let name := String.ofList name
    s!"missing field `{name}`"
  | .wrongType found expected =>
    let found := found.phrase
    let expected := expected.phrase
    s!"invalid type: {found}, expected {expected}"
  | .wrongInteger n expected =>
    let expected := expected.phrase
    s!"invalid value: integer `{n}`, expected {expected}"
  | .shortList length expected fields =>
    let expected := expected.phrase
    s!"invalid length {length}, expected {expected} with {fields} elements"

structure Fault where
  reason : Reason
  /-- The bytes of the text behind the place of the fault. -/
  unread : Nat
deriving DecidableEq

namespace Fault

/-- A fault found when all in front of `rest` had been read. -/
def behind (reason : Reason) (rest : Text) : Fault := ⟨reason, Text.byteSize rest⟩

/-- A fault that one byte of `rest` shows: its place is behind that byte, if there is one. -/
def within (reason : Reason) (rest : Text) : Fault := ⟨reason, Text.byteSize rest - 1⟩

def atEnd (reason : Reason) : Fault := ⟨reason, 0⟩

/-- Line and column behind the first `bytes` bytes of a text.  Lines count from one; the column
counts the bytes since the last line feed. -/
def position (line column : Nat) : Text → Nat → Nat × Nat
  | [], _ => (line, column)
  | c :: rest, bytes =>
    if bytes == 0 then (line, column)
    else if c == '\n' then position (line + 1) 0 rest (bytes - 1)
    else if bytes ≤ c.utf8Size then (line, column + bytes)
    else position line (column + c.utf8Size) rest (bytes - c.utf8Size)

/-- The message for a fault in a given text. -/
def message (t : Text) (f : Fault) : String :=
  let (line, column) := position 1 0 t (Text.byteSize t - f.unread)
  let reason := f.reason.message
  s!"{reason} at line {line} column {column}"

end Fault
end Json
end SketchPreview
