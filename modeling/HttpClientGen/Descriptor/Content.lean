import HttpClientGen.Descriptor.TypedField

/-!
# Contents of declared messages

Bytes are read as a message of a declared type into a list of what each field holds. Records of
fields that the type does not have are kept as they are. The content can be written again in a
normal form: the fields of the type ascend by number, what else there is follows in the same order,
each list is written as its field asks for, a map has one entry for each key, and a default value is
left out where it means the same as no value.
-/

namespace HttpClientGen.Descriptor

open Wire

/-!
## What records add to a message

The bytes of a message are read record by record, as the message's type tells. A record adds values
to one of the fields. Messages among these values are read as well, and kept in a plain form: again
as records, but as such that can be told apart without knowing the type. The entries of a map are
the reason for that, since they stand behind a length whatever form their key announces.
-/

/-- What a record adds to the field with a number: some values, which may be none if the field is a
list. -/
structure Addition where
  number : Nat
  values : List Value
  deriving DecidableEq, Repr

def Addition.encode (addition : Addition) : Bytes :=
  if addition.values = [] then putBytes addition.number []
  else addition.values.flatMap fun value => Record.encode ⟨addition.number, value⟩

/-- Reads what a record adds to a field, behind its key, whose form is given. `nested` reads a
message up to its end, which is the end of the bytes unless the number of a group is given, and
tells its plain form and what follows it. -/
def TypedField.readValues (nested : Option Nat → Bytes → Option (Bytes × Bytes))
    (typed : TypedField) (form : Nat) (bytes : Bytes) : Option (List Value × Bytes) :=
  if typed.field.type ≠ .message then do
    let (value, rest) ← readValue form bytes
    return (← typed.plainValues? value, rest)
  else if typed.isMap ∨ form = 2 ∧ !typed.field.isGroup then do
    let (value, rest) ← readValue 2 bytes
    let (content, _) ← nested none (← value.bytes?)
    return ([.bytes content], rest)
  else if form = 3 ∧ typed.field.isGroup then do
    let (content, rest) ← nested (some typed.number) bytes
    return ([.group content], rest)
  else none

/-- Reads what a record adds to a message, behind its key. Unknown fields are kept as they are,
except in the entries of a map. -/
def MessageType.readAdditions (fields : List TypedField)
    (nested : TypedField → Option Nat → Bytes → Option (Bytes × Bytes)) (depth : Nat)
    (type : MessageType) (number form : Nat) (bytes : Bytes) : Option (List Addition × Bytes) :=
  match type.field? fields number with
  | some typed => do
    let (values, rest) ← typed.readValues (nested typed) form bytes
    return ([⟨number, values⟩], rest)
  | none => do
    let (value, rest) ← readFieldValue number form bytes
    if type.isEntry then if value.isSkippable depth then some ([], rest) else none
    else if value.groupsFit depth then some ([⟨number, [value]⟩], rest)
    else none

/-- Reads additions up to the end of a message, and tells what follows it. `next` reads what stands
behind a key. The end of a group is a key of its own, with the group's number in `closing`. -/
def readUpToEnd (next : Nat → Nat → Bytes → Option (List Addition × Bytes))
    (closing : Option Nat) (bytes : Bytes) : Option (List Addition × Bytes) :=
  if bytes = [] then if closing = none then some ([], []) else none
  else
    match readKey bytes with
    | none => none
    | some ((number, form), behind) =>
      if form = 4 ∧ closing.isSome then
        if closing = some number then some ([], behind) else none
      else
        match next number form behind with
        | none => none
        | some (additions, rest) =>
          if _shorter : rest.length < bytes.length then
            (readUpToEnd next closing rest).map fun (more, rest) => (additions ++ more, rest)
          else none
termination_by bytes.length

/-- Reads a message up to its end. Messages and groups may nest `depth` deep in it; the entries of
maps do not count for that. `levels` is more than how deep anything nests. -/
def readMessage (fields : List TypedField) :
    (levels depth : Nat) → MessageType → Option Nat → Bytes → Option (List Addition × Bytes)
  | 0, _, _, _, _ => none
  | levels + 1, depth, type, closing, bytes =>
    let nested (typed : TypedField) (closing : Option Nat) (bytes : Bytes) :
        Option (Bytes × Bytes) := do
      if depth = 0 ∧ !typed.isMap then none
      else
        let inner := if typed.isMap then depth else depth - 1
        let (additions, rest) ← readMessage fields levels inner typed.messageType closing bytes
        return (additions.flatMap Addition.encode, rest)
    readUpToEnd (type.readAdditions fields nested depth) closing bytes

/-- Reads a message that stands on its own. Every level of nesting takes up a byte at least. -/
def MessageType.read? (fields : List TypedField) (type : MessageType) (bytes : Bytes) :
    Option (List Addition) :=
  (readMessage fields (bytes.length + 1) nestingLimit type none bytes).map (·.1)

/-! ## What the fields hold -/

/-- What the fields of a message hold, in ascending order of their numbers. -/
abbrev Content := List (Nat × List Value)

def TypedField.keyOf (fields : List TypedField) (typed : TypedField) (entry : Value) :
    Option Value :=
  (typed.messageType.field? fields 1).map fun key =>
    let records := (entry.message?.bind records?).getD []
    ((records.filter (·.field = 1)).getLast?.map (·.value)).getD key.default

/-- What a field holds after more values: an entry of a map takes the place of the one with the same
key, any other list grows, a message is merged into the one that is there, and a single value of
another type takes the place of the one before. -/
def TypedField.merge (fields : List TypedField) (typed : TypedField) (held new : List Value) :
    List Value :=
  if typed.isMap then
    new.foldl (fun held entry =>
      held.filter (typed.keyOf fields · ≠ typed.keyOf fields entry) ++ [entry]) held
  else if typed.field.repeated then held ++ new
  else if typed.isSingleMessage then
    [typed.ofMessage ((held ++ new).filterMap Value.message?).flatten]
  else new

namespace Content

def held (content : Content) (number : Nat) : List Value :=
  (content.lookup number).getD []

def set (content : Content) (number : Nat) (values : List Value) : Content :=
  content.takeWhile (·.1 < number) ++ (number, values) :: content.dropWhile (·.1 ≤ number)

def without (content : Content) (fields : List TypedField) : Content :=
  content.filter fun (number, _) => fields.all (·.number ≠ number)

def add (fields : List TypedField) (type : MessageType) (content : Content)
    (addition : Addition) : Content :=
  let held := content.held addition.number
  match type.field? fields addition.number with
  | none => content.set addition.number (held ++ addition.values)
  | some typed =>
    (content.without (rivals fields typed)).set addition.number
      (typed.merge fields held addition.values)

def read? (fields : List TypedField) (type : MessageType) (bytes : Bytes) : Option Content :=
  (type.read? fields bytes).map fun additions => additions.foldl (add fields type) []

/-- What is written for the content of an entry of a map: a key and a value. Where one is missing,
what the field holds at first stands for it. -/
def ofEntry (fields : List TypedField) (type : MessageType) (content : Content) : Content :=
  ([1, 2].filterMap (type.field? fields)).map fun typed =>
    (typed.number, (content.lookup typed.number).getD typed.initial)

/-- The content with the fields that the type has itself in front of extensions and unknown
fields. -/
def ownFirst (fields : List TypedField) (type : MessageType) (content : Content) : Content :=
  let isOwn (number : Nat) : Bool :=
    (type.field? fields number).any (·.extensionName.isNone)
  content.filter (isOwn ·.1) ++ content.filter (!isOwn ·.1)

/-- The records of a content in normal form, given the normal form of nested messages. -/
def records (fields : List TypedField) (normal : MessageType → Bytes → Bytes) (type : MessageType)
    (content : Content) : List Record :=
  let complete :=
    if type.isEntry then content.ofEntry fields type else content.ownFirst fields type
  complete.flatMap fun (number, values) =>
    (match type.field? fields number with
    | none => values
    | some typed => typed.written normal values).map (⟨number, ·⟩)

end Content

/-- The normal form of a message in which anything nests less than `levels` deep. Bytes that are no
such message stay as they are. -/
def normalFormUpTo (fields : List TypedField) : (levels : Nat) → MessageType → Bytes → Bytes
  | 0, _, bytes => bytes
  | levels + 1, type, bytes =>
    match Content.read? fields type bytes with
    | none => bytes
    | some content =>
      (content.records fields (normalFormUpTo fields levels) type).flatMap Record.encode

def normalForm (fields : List TypedField) (type : MessageType) (bytes : Bytes) : Bytes :=
  normalFormUpTo fields (bytes.length + 1) type bytes

def Content.encode (fields : List TypedField) (type : MessageType) (content : Content) : Bytes :=
  (content.records fields (normalForm fields) type).flatMap Record.encode

end HttpClientGen.Descriptor
