import HttpClientGen.Descriptor.Settlement
import HttpClientGen.HttpRule
import HttpClientGen.Schema
import HttpClientGen.Text

/-!
# Schemas of linked files

Linked descriptors with settled options are flattened into a schema. Messages stand in front of
those nested in them, and the enumerations of a message stand in front of those of its nested
messages. Messages that only describe the entries of a map are left out, with everything in them,
and the fields that hold such entries become maps. Comments and annotations are attached to the
declarations that they belong to.
-/

namespace HttpClientGen.Descriptor

/-!
## Annotations

Options are messages of types that the files may declare themselves, and only then can the files
extend them. An annotation is such an extension. It is found by its full name, and its value by the
number that the extension declares.
-/

section Annotations

open Wire

/-- What the options of settled files are read with. -/
structure OptionReader where
  fields : List TypedField
  /-- The messages that the options of methods and of fields are. -/
  methodType : String
  fieldType : String
  /-- The numbers of the extensions for the HTTP annotation and for behaviours. -/
  httpNumber : Option Nat
  behaviorNumber : Option Nat

def extensionNumber? (files : List File) (fullName : String) : Option Nat :=
  ((files.flatMap File.allExtensions).find? fun extension =>
    scopedName extension.scope extension.item.name = fullName).map (·.item.number.toNat)

namespace OptionReader

/-- What the options of some files are read with, which are given before and after their options
were settled. -/
def ofFiles (files settled : List File) : OptionReader where
  fields := typedFields files settled ++ standardFields
  methodType := optionsType files .method
  fieldType := optionsType files .field
  httpNumber := extensionNumber? files "google.api.http"
  behaviorNumber := extensionNumber? files "google.api.field_behavior"

def values? (reader : OptionReader) (type : String) (options : Bytes) (number : Nat) :
    Option (TypedField × List Value) := do
  let typed ← typedField? reader.fields type number
  let content ← Content.read? reader.fields { name := type } options
  return (typed, ← content.lookup number)

/-- The HTTP annotation in the options of a method. It may be absent; the result is nothing at all
if there is a message in its place that is no HTTP annotation. -/
def httpRule? (reader : OptionReader) (options : Bytes) : Option (Option HttpRule) :=
  match reader.httpNumber.bind (reader.values? reader.methodType options) with
  | none => some none
  | some (typed, held) =>
    if typed.isSingleMessage then
      let written := (held.filterMap Value.message?).flatten
      some <$> HttpRule.decode (normalForm reader.fields typed.messageType written)
    else some none

/-- The behaviours in the options of a field. Only the values of an enumeration count as such, and
unknown numbers are dropped. -/
def behaviors (reader : OptionReader) (options : Bytes) : List FieldBehavior :=
  match reader.behaviorNumber.bind (reader.values? reader.fieldType options) with
  | none => []
  | some (typed, held) =>
    if typed.field.type = .enumeration then
      (held.filterMap Value.int32?).filterMap FieldBehavior.ofNumber?
    else []

end OptionReader

end Annotations

/-! ## From files to a schema -/

open Wire (Bytes)

/-- A full name without the dots in front of it. -/
def withoutDots (name : String) : String :=
  String.ofList (name.toList.dropWhile (· = '.'))

/-- A full name as declarations are looked up by it: without the first dot, if it starts with one. A
declaration whose name starts with a dot itself is not found. -/
def withoutDot (name : String) : String :=
  match name.toList with
  | '.' :: cs => String.ofList cs
  | _ => name

/-- The kind of a linked field, or of its elements. A group counts as a message even if its name is
that of an enumeration. -/
def Field.kind (field : Field) : FieldKind :=
  match field.type, field.isGroup with
  | .scalar kind, _ => .scalar kind
  | .enumeration, false => .enumeration (withoutDots field.typeName)
  | .enumeration, true | .message, _ => .message (withoutDots field.typeName)

/-- The kinds of the values of maps, by the full names of the messages for their entries. A later
message hides an earlier one. -/
def mapValues (files : List File) : List (String × FieldKind) :=
  ((files.flatMap File.allMessages).filterMap fun message =>
    if message.item.isMapEntry then
      (message.item.fields.find? (·.number = 2)).map fun value => (message.fullName, value.kind)
    else none).reverse

/-- The comment in front of a declaration: the last one that is not blank, without the white space
at its end. -/
def File.comment? (file : File) (path : List Int) : Option String :=
  (file.locations.filterMap fun location =>
    if location.path = path then
      (location.leadingComments.map (Text.trimEnd ·.toList)).filter (· ≠ [])
    else none).getLast?.map String.ofList

/-- The path of something that stands at a position in a list of a declaration. A message of the
format is smaller than 2 GiB, so the positions in it fit 32 bits. -/
def inside (path : List Int) (list position : Nat) : List Int :=
  path ++ [(list : Int), (position : Int)]

/-- What the declarations of a set of settled files are read with. -/
structure Surroundings where
  files : List File
  mapValues : List (String × FieldKind)
  options : OptionReader

namespace Surroundings

/-- The surroundings that linked files make up, given also with their options settled. -/
def ofFiles (linked settled : List File) : Surroundings where
  files := settled
  mapValues := Descriptor.mapValues settled
  options := .ofFiles linked settled

def fieldOptions (around : Surroundings) (message field : String) : Bytes :=
  (((around.files.flatMap File.allMessages).find? (·.fullName = withoutDot message)).bind
    fun found => (found.item.fields.find? (·.name = field)).bind (·.options)).getD []

def methodOptions (around : Surroundings) (service method : String) : Bytes :=
  (around.files.findSome? fun file =>
    (file.services.find? fun found =>
      scopedName file.package found.name = withoutDot service).bind fun found =>
        (found.methods.find? (·.name = method)).map (·.options)).getD []

def field (around : Surroundings) (message : String) (oneofs : List Oneof) (field : Field) :
    HttpClientGen.Field :=
  let plain : HttpClientGen.Field :=
    { name := field.name
      kind := field.kind
      jsonName := field.jsonNameOrDefault
      cardinality := if field.repeated then .repeated else .singular
      oneof :=
        if field.explicitPresence then none
        else (field.oneofIndex.bind fun index => oneofs[index.toNat]?).map (·.name)
      explicitPresence := field.explicitPresence
      stringEncoded := (lastNumber? 6 (field.options.getD [])).any (Wire.signed32 · = 1)
      behaviors := around.options.behaviors (around.fieldOptions message field.name) }
  match plain.kind.message?.bind (around.mapValues.lookup ·), field.repeated with
  | some value, true => { plain with kind := value, cardinality := .map }
  | _, _ => plain

def enumeration (file : File) (scope : String) (path : List Int) (enumeration : Enumeration) :
    HttpClientGen.Enumeration where
  declared := ⟨file.package, scopedName scope enumeration.name⟩
  comments := file.comment? path
  values := enumeration.values.mapIdx fun position value =>
    { name := value.name
      number := value.number
      comments := file.comment? (inside path 2 position) }

/-- A message of a file, and the enumerations in it. -/
structure Flattened where
  messages : List HttpClientGen.Message := []
  enums : List HttpClientGen.Enumeration := []

def Flattened.append (front back : Flattened) : Flattened where
  messages := front.messages ++ back.messages
  enums := front.enums ++ back.enums

mutual

/-- What a message stands for: itself, its enumerations, and what is nested in it. Entries of maps
stand for nothing. -/
def flatten (around : Surroundings) (file : File) (scope : String) (path : List Int) :
    Message → Flattened
  | message@⟨name, nested, fields, enums, _, oneofs, _, _, _⟩ =>
    if message.isMapEntry then {}
    else
      let relative := scopedName scope name
      let declared : QualifiedName := ⟨file.package, relative⟩
      let own : Flattened :=
        { messages := [{
            declared
            comments := file.comment? path
            fields := fields.mapIdx fun position field =>
              { around.field declared.fullName oneofs field with
                comments := file.comment? (inside path 2 position) } }]
          enums := enums.mapIdx fun position => enumeration file relative (inside path 4 position) }
      own.append (flattenAll around file relative (inside path 3) 0 nested)

/-- What some messages stand for, the first of which stands at the given position. -/
def flattenAll (around : Surroundings) (file : File) (scope : String)
    (pathTo : Nat → List Int) (position : Nat) : List Message → Flattened
  | [] => {}
  | message :: messages =>
    (flatten around file scope (pathTo position) message).append
      (flattenAll around file scope pathTo (position + 1) messages)

end

/-- A method of a service with a full name, unless there is something else in the place of its HTTP
annotation. -/
def method? (around : Surroundings) (file : File) (service : String) (path : List Int)
    (method : Method) : Option HttpClientGen.Method := do
  let rule ← around.options.httpRule? (around.methodOptions service method.name)
  return {
    name := method.name
    input := withoutDots method.input
    output := withoutDots method.output
    clientStreaming := method.clientStreaming
    serverStreaming := method.serverStreaming
    binding := rule.bind HttpRule.binding?
    comments := file.comment? path }

def service? (around : Surroundings) (file : File) (path : List Int) (service : Service) :
    Option HttpClientGen.Service := do
  let declared : QualifiedName := ⟨file.package, service.name⟩
  let methods ← (service.methods.mapIdx fun position =>
    around.method? file declared.fullName (inside path 2 position)).mapM id
  return { declared, methods, comments := file.comment? path }

def file? (around : Surroundings) (file : File) : Option SchemaFile := do
  let flattened := around.flattenAll file "" (inside [] 4) 0 file.messages
  let services ← (file.services.mapIdx fun position =>
    around.service? file (inside [] 6 position)).mapM id
  return {
    name := file.name
    package := file.package
    messages := flattened.messages
    enums := file.enums.mapIdx (fun position => enumeration file "" (inside [] 5 position)) ++
      flattened.enums
    services }

end Surroundings

/-- Why files do not make up a schema. -/
inductive LoadError
  /-- The descriptors break the rules of the format. -/
  | descriptor
  /-- Something else stands in the place of an HTTP annotation. -/
  | httpRule
  deriving DecidableEq, Repr

/-- The surroundings that some descriptors make up, once they are linked and their options are
settled. -/
def readFiles? (descriptors : List Bytes) : Option Surroundings := do
  let files ← descriptors.mapM File.read
  let seen ← visibleInEach files
  let linked ← linkFiles seen files
  let settled ← settleFiles seen linked
  return .ofFiles linked settled

def loadSchema (descriptors : List Bytes) : Except LoadError Schema :=
  match readFiles? descriptors with
  | none => .error .descriptor
  | some around =>
    match around.files.mapM around.file? with
    | none => .error .httpRule
    | some files => .ok (Schema.ofFiles files)

end HttpClientGen.Descriptor
