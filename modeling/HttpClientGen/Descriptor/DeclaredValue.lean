import HttpClientGen.Descriptor.File
import HttpClientGen.Text.Literal
import HttpClientGen.Wire.FloatFormat
import HttpClientGen.Wire.Value

/-!
# Values of declared types

How the values of the built-in types and of enumerations are written in records, which integers a
type can hold, and what the default value of a field is.
-/

namespace HttpClientGen.Descriptor

open Wire

/-- Whether the values of a type can stand one behind the other: numbers can, while texts and
messages need a length each. -/
def DeclaredType.isPackable : DeclaredType → Bool
  | .scalar .string | .scalar .bytes | .message => false
  | .scalar _ | .enumeration => true

def formOf : ScalarKind → Nat
  | .double | .fixed64 | .sfixed64 => 1
  | .string | .bytes => 2
  | .float | .fixed32 | .sfixed32 => 5
  | .int64 | .uint64 | .int32 | .bool | .uint32 | .sint32 | .sint64 => 0

/-- The integer that is written again after `n` was read for a number of a built-in type. -/
def writtenAgain (kind : ScalarKind) (n : Nat) : Nat :=
  match kind with
  | .int32 => unsigned64 (signed32 n)
  | .uint32 | .sint32 => n % 0x100000000
  | .bool => if n = 0 then 0 else 1
  | _ => n

def scalar? (kind : ScalarKind) : Value → Option Value
  | .varint n => if formOf kind = 0 then some (.varint (writtenAgain kind n)) else none
  | .fixed64 content => if formOf kind = 1 then some (.fixed64 content) else none
  | .bytes content =>
    if kind = .bytes ∨ kind = .string ∧ (text? content).isSome then some (.bytes content) else none
  | .fixed32 content => if formOf kind = 5 then some (.fixed32 content) else none
  | .group _ => none

/-- The lowest `count` bytes of an integer, the lowest one first. -/
def lowBytes (count : Nat) (n : Int) : Bytes :=
  (List.range count).map fun position => UInt8.ofNat (n / Nat.pow 256 position % 256).toNat

/-- The integer whose bytes are given, the lowest one first. -/
def ofLowBytes (bytes : Bytes) : Nat :=
  bytes.foldr (fun byte high => 256 * high + byte.toNat) 0

def floatFormat? : ScalarKind → Option FloatFormat
  | .double => some .double
  | .float => some .single
  | _ => none

def encodedFloat (format : FloatFormat) (bits : Nat) : Value :=
  if format = .single then .fixed32 (lowBytes 4 bits) else .fixed64 (lowBytes 8 bits)

def floatBits? : Value → Option Nat
  | .fixed64 content | .fixed32 content => some (ofLowBytes content)
  | _ => none

def integerBounds? : ScalarKind → Option (Int × Int)
  | .int32 | .sint32 | .sfixed32 => some (-0x80000000, 0x7FFFFFFF)
  | .int64 | .sint64 | .sfixed64 => some (-0x8000000000000000, 0x7FFFFFFFFFFFFFFF)
  | .uint32 | .fixed32 => some (0, 0xFFFFFFFF)
  | .uint64 | .fixed64 => some (0, 0xFFFFFFFFFFFFFFFF)
  | .double | .float | .bool | .string | .bytes => none

/-- How a number of an integer type is written. The types whose names start with an `s` alternate
between the signs. -/
def encodedInteger (kind : ScalarKind) (n : Int) : Value :=
  match kind with
  | .fixed64 | .sfixed64 => .fixed64 (lowBytes 8 n)
  | .fixed32 | .sfixed32 => .fixed32 (lowBytes 4 n)
  | .sint32 | .sint64 => .varint (if 0 ≤ n then 2 * n else -2 * n - 1).toNat
  | _ => .varint (unsigned64 n)

def integerValue? (kind : ScalarKind) (n : Int) : Option Value := do
  let (least, greatest) ← integerBounds? kind
  if least ≤ n ∧ n ≤ greatest then some (encodedInteger kind n) else none

def EnumValue.encoded (value : EnumValue) : Value :=
  .varint (unsigned64 value.number)

def choice? (choices : List EnumValue) (name : String) : Option Value :=
  (choices.find? (·.name = name)).map EnumValue.encoded

/-- The value of a built-in type whose bytes are all zero. -/
def zeroOf (kind : ScalarKind) : Value :=
  match formOf kind with
  | 0 => .varint 0
  | 1 => .fixed64 (lowBytes 8 0)
  | 2 => .bytes []
  | _ => .fixed32 (lowBytes 4 0)

/-- The value of a field without a default value of its own. For an enumeration it is the first of
its values. -/
def DeclaredType.initial (type : DeclaredType) (choices : List EnumValue) : Value :=
  match type with
  | .scalar kind => zeroOf kind
  | .enumeration => (choices.head?.map EnumValue.encoded).getD (.varint 0)
  | .message => .bytes []

def flagValue? : String → Option Value
  | "true" => some (.varint 1)
  | "false" => some (.varint 0)
  | _ => none

def floatValue? (format : FloatFormat) (text : String) : Option Value := do
  let (isNegative, size) ← Text.float? text.toList
  let magnitude := match size with
    | .decimal decimal => format.ofDecimal decimal.digits decimal.exponent
    | .infinite => format.infinity
    | .notANumber => format.notANumber
  return encodedFloat format (format.signed isNegative magnitude)

/-- The value that a default value in a schema stands for, if a field of the type can have it. -/
def defaultValue? (type : DeclaredType) (choices : List EnumValue) (text : String) :
    Option Value :=
  match type with
  | .scalar .string => some (.bytes (textBytes text))
  | .scalar .bytes => (Text.unescape? text.toList).map .bytes
  | .scalar .bool => flagValue? text
  | .scalar .double => floatValue? .double text
  | .scalar .float => floatValue? .single text
  | .scalar kind => do
    let (least, _) ← integerBounds? kind
    let number ← if least < 0 then Text.integer? text.toList
      else (Text.natural? text.toList).map fun (n : Nat) => (n : Int)
    integerValue? kind number
  | .enumeration => choice? choices text
  | .message => none

/-- Whether a value of a type equals another one. Floating-point numbers are compared as numbers. -/
def DeclaredType.same (type : DeclaredType) (left right : Value) : Bool :=
  match type with
  | .scalar kind =>
    match floatFormat? kind, floatBits? left, floatBits? right with
    | some format, some left, some right => format.areEqual left right
    | _, _, _ => left = right
  | _ => left = right

end HttpClientGen.Descriptor
