import HttpClientGen.Descriptor.File
import HttpClientGen.Descriptor.OptionKind

/-!
# Reading file descriptors

Every kind of descriptor is read record by record. A record of a known field has to hold a value of
the field's form, and records of unknown fields are skipped. Messages may nest only so deep: `depth`
is the number of levels that are left, and once none is left neither a nested message nor an unknown
field is accepted.
-/

namespace HttpClientGen.Descriptor

open Wire

/-- Reads a nested message, one level deeper. -/
def readNested {α : Type} (depth : Nat) (value : Value) (read : Nat → Bytes → Option α) :
    Option α :=
  match depth, value with
  | depth + 1, .bytes content => read depth content
  | _, _ => none

/-- Reads a message, starting from what is known of it. -/
def mergeAll {α : Type} (mergeRecord : α → Record → Option α) (descriptor : α) (bytes : Bytes) :
    Option α := do
  (← records? bytes).foldlM mergeRecord descriptor

/-- The value of a field of several integers, which may be packed into one record. -/
def ints? : Value → Option (List Int)
  | .bytes content => (readPacked 0 content).bind (·.mapM Value.int32?)
  | value => value.int32?.map ([·])

/-- Reads options, which are kept as bytes behind those that are there already. -/
def mergeOptions (kind : OptionKind) (soFar : Bytes) (depth : Nat) (value : Value) :
    Option Bytes :=
  readNested depth value fun depth content =>
    if kind.accepts depth content then some (soFar ++ content) else none

/-- A range of numbers after one more record. -/
def NumberRange.mergeRecord (depth : Nat) (range : NumberRange) (record : Record) :
    Option NumberRange :=
  match record.field with
  | 1 => record.value.int32?.map fun start => { range with start }
  | 2 => record.value.int32?.map fun stop => { range with stop }
  | _ => skip depth record.value range

def NumberRange.read (depth : Nat) (bytes : Bytes) : Option NumberRange :=
  mergeAll (mergeRecord depth) {} bytes

def ExtensionRange.mergeRecord (depth : Nat) (extensions : ExtensionRange) (record : Record) :
    Option ExtensionRange :=
  match record.field with
  | 3 => (mergeOptions .extensionRange extensions.options depth record.value).map fun options =>
      { extensions with options }
  | _ => (extensions.range.mergeRecord depth record).map fun range => { extensions with range }

def ExtensionRange.read (depth : Nat) (bytes : Bytes) : Option ExtensionRange :=
  mergeAll (mergeRecord depth) {} bytes

/-- The type with a number. Groups are messages, and unknown numbers stand for the first type. -/
def DeclaredType.ofNumber : Int → DeclaredType
  | 2 => .scalar .float
  | 3 => .scalar .int64
  | 4 => .scalar .uint64
  | 5 => .scalar .int32
  | 6 => .scalar .fixed64
  | 7 => .scalar .fixed32
  | 8 => .scalar .bool
  | 9 => .scalar .string
  | 10 | 11 => .message
  | 12 => .scalar .bytes
  | 13 => .scalar .uint32
  | 14 => .enumeration
  | 15 => .scalar .sfixed32
  | 16 => .scalar .sfixed64
  | 17 => .scalar .sint32
  | 18 => .scalar .sint64
  | _ => .scalar .double

def Field.mergeRecord (depth : Nat) (field : Field) (record : Record) : Option Field :=
  match record.field with
  | 1 => record.value.text?.map fun name => { field with name }
  | 2 => record.value.text?.map fun extendee => { field with extendee := some extendee }
  | 3 => record.value.int32?.map fun number => { field with number }
  | 4 => record.value.int32?.map fun (label : Int) =>
      { field with repeated := label = 3 }
  | 5 => record.value.int32?.map fun (type : Int) =>
      { field with type := .ofNumber type, isGroup := type = 10 }
  | 6 => record.value.text?.map fun typeName => { field with typeName }
  | 7 => record.value.text?.map fun defaultText =>
      { field with defaultText := some defaultText }
  | 8 => (mergeOptions .field (field.options.getD []) depth record.value).map fun options =>
      { field with options := some options }
  | 9 => record.value.int32?.map fun index => { field with oneofIndex := some index }
  | 10 => record.value.text?.map fun jsonName => { field with jsonName := some jsonName }
  | 17 => record.value.flag?.map fun explicitPresence => { field with explicitPresence }
  | _ => skip depth record.value field

def Field.read (depth : Nat) (bytes : Bytes) : Option Field :=
  mergeAll (mergeRecord depth) {} bytes

def EnumValue.mergeRecord (depth : Nat) (value : EnumValue) (record : Record) :
    Option EnumValue :=
  match record.field with
  | 1 => record.value.text?.map fun name => { value with name }
  | 2 => record.value.int32?.map fun number => { value with number }
  | 3 => (mergeOptions .enumValue value.options depth record.value).map fun options =>
      { value with options }
  | _ => skip depth record.value value

def EnumValue.read (depth : Nat) (bytes : Bytes) : Option EnumValue :=
  mergeAll (mergeRecord depth) {} bytes

def Enumeration.mergeRecord (depth : Nat) (enumeration : Enumeration) (record : Record) :
    Option Enumeration :=
  match record.field with
  | 1 => record.value.text?.map fun name => { enumeration with name }
  | 2 => (readNested depth record.value EnumValue.read).map fun value =>
      { enumeration with values := enumeration.values ++ [value] }
  | 3 => (mergeOptions .enumeration enumeration.options depth record.value).map fun options =>
      { enumeration with options }
  | 4 => (readNested depth record.value NumberRange.read).map fun range =>
      { enumeration with reservedRanges := enumeration.reservedRanges ++ [range] }
  | 5 => record.value.text?.map fun _ => enumeration
  | _ => skip depth record.value enumeration

def Enumeration.read (depth : Nat) (bytes : Bytes) : Option Enumeration :=
  mergeAll (mergeRecord depth) {} bytes

def Oneof.mergeRecord (depth : Nat) (oneof : Oneof) (record : Record) : Option Oneof :=
  match record.field with
  | 1 => record.value.text?.map fun name => { oneof with name }
  | 2 => (mergeOptions .oneof oneof.options depth record.value).map fun options =>
      { oneof with options }
  | _ => skip depth record.value oneof

def Oneof.read (depth : Nat) (bytes : Bytes) : Option Oneof :=
  mergeAll (mergeRecord depth) {} bytes

/-- A message after one more record. Nested messages are read by `readInner`. -/
def Message.mergeRecord (depth : Nat) (readInner : Value → Option Message) (message : Message)
    (record : Record) : Option Message :=
  match record.field with
  | 1 => record.value.text?.map fun name => { message with name }
  | 2 => (readNested depth record.value Field.read).map fun field =>
      { message with fields := message.fields ++ [field] }
  | 3 => (readInner record.value).map fun inner =>
      { message with nested := message.nested ++ [inner] }
  | 4 => (readNested depth record.value Enumeration.read).map fun enumeration =>
      { message with enums := message.enums ++ [enumeration] }
  | 5 => (readNested depth record.value ExtensionRange.read).map fun range =>
      { message with extensionRanges := message.extensionRanges ++ [range] }
  | 6 => (readNested depth record.value Field.read).map fun field =>
      { message with extensions := message.extensions ++ [field] }
  | 7 => (mergeOptions .message message.options depth record.value).map fun options =>
      { message with options }
  | 8 => (readNested depth record.value Oneof.read).map fun oneof =>
      { message with oneofs := message.oneofs ++ [oneof] }
  | 9 => (readNested depth record.value NumberRange.read).map fun range =>
      { message with reservedRanges := message.reservedRanges ++ [range] }
  | 10 => record.value.text?.map fun _ => message
  | _ => skip depth record.value message

def Message.read : Nat → Bytes → Option Message
  | 0, bytes => mergeAll (mergeRecord 0 fun _ => none) {} bytes
  | depth + 1, bytes =>
    mergeAll (mergeRecord (depth + 1) fun value => value.bytes?.bind (Message.read depth)) {} bytes

def Method.mergeRecord (depth : Nat) (method : Method) (record : Record) : Option Method :=
  match record.field with
  | 1 => record.value.text?.map fun name => { method with name }
  | 2 => record.value.text?.map fun input => { method with input }
  | 3 => record.value.text?.map fun output => { method with output }
  | 4 => (mergeOptions .method method.options depth record.value).map fun options =>
      { method with options }
  | 5 => record.value.flag?.map fun clientStreaming => { method with clientStreaming }
  | 6 => record.value.flag?.map fun serverStreaming => { method with serverStreaming }
  | _ => skip depth record.value method

def Method.read (depth : Nat) (bytes : Bytes) : Option Method :=
  mergeAll (mergeRecord depth) {} bytes

def Service.mergeRecord (depth : Nat) (service : Service) (record : Record) : Option Service :=
  match record.field with
  | 1 => record.value.text?.map fun name => { service with name }
  | 2 => (readNested depth record.value Method.read).map fun method =>
      { service with methods := service.methods ++ [method] }
  | 3 => (mergeOptions .service service.options depth record.value).map fun options =>
      { service with options }
  | _ => skip depth record.value service

def Service.read (depth : Nat) (bytes : Bytes) : Option Service :=
  mergeAll (mergeRecord depth) {} bytes

def Location.mergeRecord (depth : Nat) (location : Location) (record : Record) :
    Option Location :=
  match record.field with
  | 1 => (ints? record.value).map fun path => { location with path := location.path ++ path }
  | 2 => (ints? record.value).map fun _ => location
  | 3 => record.value.text?.map fun comment => { location with leadingComments := some comment }
  | 4 | 6 => record.value.text?.map fun _ => location
  | _ => skip depth record.value location

def Location.read (depth : Nat) (bytes : Bytes) : Option Location :=
  mergeAll (mergeRecord depth) {} bytes

/-- Reads the locations of a file behind those that are there already. -/
def readLocations (soFar : List Location) (depth : Nat) (bytes : Bytes) : Option (List Location) :=
  mergeAll
    (fun locations record =>
      if record.field = 1 then
        (readNested depth record.value Location.read).map fun location => locations ++ [location]
      else skip depth record.value locations)
    soFar bytes

def File.mergeRecord (depth : Nat) (file : File) (record : Record) : Option File :=
  match record.field with
  | 1 => record.value.text?.map fun name => { file with name }
  | 2 => record.value.text?.map fun package => { file with package }
  | 3 => record.value.text?.map fun name =>
      { file with dependencies := file.dependencies ++ [name] }
  | 4 => (readNested depth record.value Message.read).map fun message =>
      { file with messages := file.messages ++ [message] }
  | 5 => (readNested depth record.value Enumeration.read).map fun enumeration =>
      { file with enums := file.enums ++ [enumeration] }
  | 6 => (readNested depth record.value Service.read).map fun service =>
      { file with services := file.services ++ [service] }
  | 7 => (readNested depth record.value Field.read).map fun field =>
      { file with extensions := file.extensions ++ [field] }
  | 8 => (mergeOptions .file file.options depth record.value).map fun options =>
      { file with options }
  | 9 => (readNested depth record.value (readLocations file.locations)).map fun locations =>
      { file with locations }
  | 10 => (ints? record.value).map fun positions =>
      { file with publicDependencies := file.publicDependencies ++ positions }
  | 11 => (ints? record.value).map fun positions =>
      { file with weakDependencies := file.weakDependencies ++ positions }
  | 12 => record.value.text?.map fun syntaxName => { file with syntaxName := some syntaxName }
  | _ => skip depth record.value file

/-- Reads a file, which is itself nested in the list of all files. -/
def File.read (bytes : Bytes) : Option File :=
  mergeAll (mergeRecord (nestingLimit - 1)) {} bytes

end HttpClientGen.Descriptor
