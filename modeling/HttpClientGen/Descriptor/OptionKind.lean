import HttpClientGen.Wire.Value

/-!
# Kinds of options

Every kind of declaration has options of its own, and the format itself knows some of them. Options
are kept as bytes, so that their records have to be such as can be passed over, and those of known
options have to have the option's form as well.
-/

namespace HttpClientGen.Descriptor

open Wire

/-- The form of a field that is checked but not kept. -/
inductive Form
  | number
  | double
  | text
  | bytes
  /-- A message with fields of these numbers and forms. -/
  | message (fields : List (Nat × Form))

def Form.accepts : Nat → Form → Value → Bool
  | _, number, .varint _ | _, double, .fixed64 _ | _, bytes, .bytes _ => true
  | _, text, .bytes content => (text? content).isSome
  | depth + 1, message fields, .bytes content =>
    match records? content with
    | none => false
    | some records => records.all fun record =>
      match fields.lookup record.field with
      | some form => form.accepts depth record.value
      | none => record.value.isSkippable depth
  | _, _, _ => false

def lastNumber? (field : Nat) (bytes : Bytes) : Option Nat :=
  ((records? bytes).getD []).foldl
    (fun last record => if record.field = field then record.value.varint? else last) none

/-- The kinds of declarations that have options. -/
inductive OptionKind
  | file
  | message
  | field
  | oneof
  | extensionRange
  | enumeration
  | enumValue
  | service
  | method
  deriving DecidableEq, Repr

def namedSettings : Nat × Form :=
  (999, .message [(2, .message [(1, .text), (2, .number)]), (3, .text), (4, .number),
    (5, .number), (6, .double), (7, .bytes), (8, .text)])

namespace OptionKind

def texts : OptionKind → List Nat
  | file => [1, 8, 11, 36, 37, 39, 40, 41, 44, 45]
  | _ => []

/-- The options that are numbers, truth values or values of an enumeration. -/
def numbers : OptionKind → List Nat
  | file => [9, 10, 16, 17, 18, 20, 23, 27, 31, 42]
  | message => [1, 2, 3, 7]
  | field => [1, 2, 3, 5, 6, 10]
  | oneof | extensionRange => []
  | enumeration => [2, 3]
  | enumValue => [1]
  | service => [33]
  | method => [33, 34]

def forms (kind : OptionKind) : List (Nat × Form) :=
  kind.texts.map (·, .text) ++ kind.numbers.map (·, .number) ++ [namedSettings]

/-- Whether some bytes are options of a kind, where messages may nest `depth` deep. -/
def accepts (kind : OptionKind) (depth : Nat) (options : Bytes) : Bool :=
  match records? options with
  | none => false
  | some records => records.all fun record =>
    record.value.isSkippable depth &&
      ((kind.forms.lookup record.field).map fun form => form.accepts depth record.value).getD true

end OptionKind

end HttpClientGen.Descriptor
