import HttpClientGen.Document
import HttpClientGen.Schema.Declaration

/-!
# Well-known types

The messages and enumerations of the package `google.protobuf` have a JSON form of their own. They
are never generated from their fields. Each becomes an alias such as `wellKnownTimestamp`, which is
declared once in every file that refers to it.
-/

namespace HttpClientGen

/-- A type of the package `google.protobuf`. -/
inductive WellKnown
  | any
  | duration
  | empty
  | fieldMask
  | struct
  | timestamp
  | floatValue
  | int64Value
  | int32Value
  | uint64Value
  | uint32Value
  | bytesValue
  | doubleValue
  | boolValue
  | stringValue
  | value
  | nullValue
  | listValue
  /-- A type without a JSON form of its own, by its name in the package with `_` for dots. -/
  | other (name : String)
  deriving DecidableEq, Repr

namespace WellKnown

/-- The types that have a JSON form of their own. -/
def mapped : List WellKnown :=
  [any, duration, empty, fieldMask, struct, timestamp, floatValue, int64Value, int32Value,
    uint64Value, uint32Value, bytesValue, doubleValue, boolValue, stringValue, value, nullValue,
    listValue]

def shortName : WellKnown → String
  | any => "Any"
  | duration => "Duration"
  | empty => "Empty"
  | fieldMask => "FieldMask"
  | struct => "Struct"
  | timestamp => "Timestamp"
  | floatValue => "FloatValue"
  | int64Value => "Int64Value"
  | int32Value => "Int32Value"
  | uint64Value => "UInt64Value"
  | uint32Value => "UInt32Value"
  | bytesValue => "BytesValue"
  | doubleValue => "DoubleValue"
  | boolValue => "BoolValue"
  | stringValue => "StringValue"
  | value => "Value"
  | nullValue => "NullValue"
  | listValue => "ListValue"
  | other name => name

/-- The path in the package `google.protobuf` of a full name that starts with it. -/
def path? (fullName : String) : Option String :=
  ("google.protobuf.".toList.isPrefixOf? fullName.toList).map String.ofList

def ofFullName? (fullName : String) : Option WellKnown :=
  (path? fullName).map fun path =>
    (mapped.find? (·.shortName = path)).getD (other (replaceChar path '.' "_"))

/-- The name by which generated code knows the type. -/
def aliasName (type : WellKnown) : String :=
  "wellKnown" ++ type.shortName

def dependencies : WellKnown → List WellKnown
  | listValue => [value]
  | _ => []

/-- What the declaration says about the JSON form. -/
def remarks : WellKnown → List String
  | any =>
    ["If the Any contains a value that has a special JSON mapping,",
     "it will be converted as follows:",
     "\x7b\"@type\": xxx, \"value\": yyy\x7d.",
     "Otherwise, the value will be converted into a JSON object,",
     "and the \"@type\" field will be inserted to indicate the actual data type."]
  | duration =>
    ["Generated output always contains 0, 3, 6, or 9 fractional digits,",
     "depending on required precision, followed by the suffix \"s\".",
     "Accepted are any fractional digits (also none) as long as they fit",
     "into nano-seconds precision and the suffix \"s\" is required."]
  | empty => ["An empty JSON object"]
  | timestamp =>
    ["Encoded using RFC 3339, where generated output will always be Z-normalized",
     "and uses 0, 3, 6 or 9 fractional digits.",
     "Offsets other than \"Z\" are also accepted."]
  | fieldMask =>
    ["In JSON, a field mask is encoded as a single string where paths are",
     "separated by a comma. Fields name in each path are converted",
     "to/from lower-camel naming conventions."]
  | struct => ["Any JSON value."]
  | other _ => ["No mapping for this well known type is generated, yet."]
  | _ => []

/-- The type that the alias stands for; `any` is an interface instead. -/
def aliased? : WellKnown → Option String
  | any => none
  | duration | timestamp | fieldMask => some "string"
  | empty => some "Record<never, never>"
  | struct => some "Record<string, unknown>"
  | floatValue | doubleValue | int64Value | int32Value | uint64Value | uint32Value =>
    some "number | null"
  | bytesValue | stringValue => some "string | null"
  | boolValue => some "boolean | null"
  | nullValue => some "null"
  | listValue => some (value.aliasName ++ "[]")
  | value | other _ => some "unknown"

def declaration (type : WellKnown) : Document :=
  (if type.remarks = [] then [] else Document.comment 0 type.remarks) ++
    (match type.aliased? with
    | some target => [⟨0, "type " ++ type.aliasName ++ " = " ++ target ++ ";"⟩]
    | none =>
      [⟨0, "interface " ++ type.aliasName ++ " \x7b"⟩, ⟨1, "\"@type\": string;"⟩,
       ⟨1, "[key: string]: unknown;"⟩, ⟨0, "\x7d"⟩]) ++
    [Line.blank]

end WellKnown

def isWellKnown (fullName : String) : Bool :=
  (WellKnown.path? fullName).isSome

end HttpClientGen
