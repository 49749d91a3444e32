import HttpClientGen.Descriptor.Link
import HttpClientGen.Descriptor.DeclaredValue

/-!
# Fields of declared messages

The files of a request declare messages, and extensions of messages. Both tell how the records of
such a message are to be read and written: which numbers its fields have, what their values look
like, and which fields exclude each other.
-/

namespace HttpClientGen.Descriptor

open Wire

/-- What a message is read as: a declared message, or an entry of a map. Of an entry only the key
and the value count. -/
structure MessageType where
  /-- The full name of the message, with a dot in front. -/
  name : String
  isEntry : Bool := false
  deriving DecidableEq, Repr

/-- A field of a declared message, with what the files decide about it. -/
structure TypedField where
  /-- The full name of the message, with a dot in front. -/
  message : String
  field : Field
  /-- The full name of the extension, if it is one. -/
  extensionName : Option String := none
  /-- Whether what the field holds is told from nothing even if it is the default value or an empty
  list. -/
  hasPresence : Bool
  /-- The values of the enumeration that is the field's type. -/
  choices : List EnumValue := []
  /-- Whether the field is a map, so that its messages have a key and a value only. -/
  isMap : Bool := false
  deriving DecidableEq, Repr

def typedField? (fields : List TypedField) (message : String) (number : Nat) : Option TypedField :=
  fields.find? fun typed => typed.message = message && typed.field.number = number

/-- Whether a message only describes the entries of a map. -/
def Message.isMapEntry (message : Message) : Bool :=
  (lastNumber? 7 message.options).any (· ≠ 0)

/-- The full names of the messages that describe the entries of maps, with a dot in front. -/
def entryNames (files : List File) : List String :=
  (files.flatMap File.allMessages).filterMap fun message =>
    if message.item.isMapEntry then some ("." ++ message.fullName) else none

/-- The fields of all messages of some linked files, with the extensions behind them. What is a map
is told by the options in `settled`, the same files with their options set. -/
def typedFields (files settled : List File) : List TypedField :=
  let entries := entryNames settled
  let choices := enumerationChoices files
  let typed (message : String) (field : Field) (hasPresence : Bool) : TypedField :=
    { message, field, hasPresence
      choices := (choices.lookup field.typeName).getD []
      isMap := field.repeated && field.type = .message && entries.contains field.typeName }
  (files.flatMap fun file => file.allMessages.flatMap fun message =>
    message.item.fields.map fun field =>
      typed ("." ++ message.fullName) field (field.explicitPresence || field.oneofIndex.isSome ||
        !field.repeated && (file.version? = some .proto2 || field.type = .message))) ++
  files.flatMap fun file => file.allExtensions.map fun extension =>
    { typed (extension.item.extendee.getD "") extension.item !extension.item.repeated with
      extensionName := some (scopedName extension.scope extension.item.name) }

namespace TypedField

def number (typed : TypedField) : Nat :=
  typed.field.number.toNat

/-- The built-in type that values of the field are written like; enumerations are written by
number. -/
def scalarKind? (typed : TypedField) : Option ScalarKind :=
  match typed.field.type with
  | .scalar kind => some kind
  | .enumeration => some .int32
  | .message => none

def messageType (typed : TypedField) : MessageType where
  name := typed.field.typeName
  isEntry := typed.isMap

/-- Whether the field holds one message, to which further records add. -/
def isSingleMessage (typed : TypedField) : Bool :=
  typed.field.type = .message && !typed.field.repeated

/-- A message as a value of the field. The entries of a map are never groups. -/
def ofMessage (typed : TypedField) (content : Bytes) : Value :=
  if typed.field.isGroup && !typed.isMap then .group content else .bytes content

/-- The default value of the field, or of the elements of its list. -/
def default (typed : TypedField) : Value :=
  if typed.field.type = .message then typed.ofMessage []
  else
    (typed.field.defaultText.bind (defaultValue? typed.field.type typed.choices)).getD
      (typed.field.type.initial typed.choices)

/-- What the field holds at first. -/
def initial (typed : TypedField) : List Value :=
  if typed.field.repeated then [] else [typed.default]

def isSet (typed : TypedField) (held : List Value) : Bool :=
  held ≠ [] && (typed.field.repeated || typed.hasPresence ||
    held.any fun value => !typed.field.type.same value typed.default)

/-- The values that one record adds to a field whose values are no messages, if it may stand there.
A list of numbers may also be packed into one record. -/
def plainValues? (typed : TypedField) (value : Value) : Option (List Value) :=
  match typed.scalarKind?, value with
  | none, _ => none
  | some kind, .bytes content =>
    if typed.field.repeated ∧ typed.field.type.isPackable then
      (readPacked (formOf kind) content).bind (·.mapM (scalar? kind))
    else (scalar? kind value).map ([·])
  | some kind, _ => (scalar? kind value).map ([·])

/-- The values of the records that are written for what the field holds. `normal` gives the bytes
that are written for a message. -/
def written (normal : MessageType → Bytes → Bytes) (typed : TypedField) (held : List Value) :
    List Value :=
  if typed.field.packed then
    if held = [] ∧ !typed.hasPresence then [] else [.bytes (held.flatMap Value.encode)]
  else if !typed.isSet held then []
  else held.map fun value =>
    match typed.field.type, value.message? with
    | .message, some content => typed.ofMessage (normal typed.messageType content)
    | _, _ => value

/-- The field as the key or the value of the entries of a map, where it has no alternatives. -/
def asValue (typed : TypedField) : TypedField :=
  { typed with field := { typed.field with oneofIndex := none } }

/-- The field as the key of the entries of a map: no list, and with the plain default value of its
type. -/
def asKey (typed : TypedField) : TypedField :=
  { typed with
    field := { typed.field with
      oneofIndex := none, repeated := false, packed := false, defaultText := none } }

end TypedField

def MessageType.field? (fields : List TypedField) (type : MessageType) (number : Nat) :
    Option TypedField :=
  let found := typedField? fields type.name number
  if !type.isEntry then found
  else
    match number with
    | 1 => (found.filter (·.extensionName.isNone)).map TypedField.asKey
    | 2 => (found.filter (·.extensionName.isNone)).map TypedField.asValue
    | _ => none

/-- The fields that cannot be set together with a field: the others of its group of alternatives. -/
def rivals (fields : List TypedField) (typed : TypedField) : List TypedField :=
  if typed.field.oneofIndex.isNone || typed.extensionName.isSome then []
  else fields.filter fun other =>
    other.message = typed.message && other.extensionName.isNone &&
      other.field.oneofIndex = typed.field.oneofIndex && other.field.number ≠ typed.field.number

end HttpClientGen.Descriptor
