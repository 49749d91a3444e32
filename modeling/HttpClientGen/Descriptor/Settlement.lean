import HttpClientGen.Descriptor.Content
import HttpClientGen.Descriptor.StandardOptions

/-!
# Settling options

The options of every declaration have to be readable as a message of their type. Then the settings
among them are carried out in their order: the path leads from the options through fields and
extensions, and at its end a list gets one more value, and anything else a first one.
-/

namespace HttpClientGen.Descriptor

open Wire

namespace OptionSetting

def double? (setting : OptionSetting) : Option Nat :=
  (setting.double.map ofLowBytes).orElse fun _ => setting.number?.map FloatFormat.double.ofInt

def scalarValue? (setting : OptionSetting) (kind : ScalarKind) : Option Value :=
  match kind with
  | .double => setting.double?.map (encodedFloat .double)
  | .float => setting.double?.map fun bits =>
      encodedFloat .single (FloatFormat.converted .double .single bits)
  | .bool => setting.identifier.bind flagValue?
  | .string => (setting.content.filter fun content => (text? content).isSome).map .bytes
  | .bytes => setting.content.map .bytes
  | kind => setting.number?.bind (integerValue? kind)

/-- The value of a setting for a field. A message that is written out is not looked into; it counts
as empty. -/
def value? (setting : OptionSetting) (typed : TypedField) : Option Value :=
  match typed.field.type with
  | .scalar kind => setting.scalarValue? kind
  | .enumeration => setting.identifier.bind (choice? typed.choices)
  | .message => setting.aggregate.map fun _ => typed.ofMessage []

end OptionSetting

/-- The field of a message that a part of a path names. `extension?` gives the full name of an
extension. -/
def NamePart.field? (fields : List TypedField) (extension? : String → Option String)
    (message : String) (part : NamePart) : Option TypedField :=
  if part.isExtension then
    (extension? part.name).bind fun fullName =>
      fields.find? fun typed => typed.extensionName = some fullName && typed.message = message
  else
    fields.find? fun typed =>
      typed.extensionName.isNone && typed.message = message && typed.field.name = part.name

namespace Content

/-- The content after a value has been set. A list or a map gets one more, and a single field must
not be set yet. -/
def put (fields : List TypedField) (content : Content) (typed : TypedField) (value : Value) :
    Option Content :=
  let held := content.held typed.number
  let content := content.without (rivals fields typed)
  if typed.field.repeated then some (content.set typed.number (typed.merge fields held [value]))
  else if typed.isSet held then none
  else some (content.set typed.number [value])

/-- The content of a message after a setting has been carried out along a path. -/
def apply (fields : List TypedField) (extension? : String → Option String)
    (setting : OptionSetting) : List NamePart → String → Content → Option Content
  | [], _, content => some content
  | part :: path, message, content => do
    let typed ← part.field? fields extension? message
    if path = [] then content.put fields typed (← setting.value? typed)
    else if typed.isSingleMessage then
      let type := typed.messageType
      let held := (content.held typed.number).filterMap Value.message?
      let inner ← read? fields type held.flatten
      let changed ← inner.apply fields extension? setting path type.name
      let content := content.without (rivals fields typed)
      return content.set typed.number [typed.ofMessage (changed.encode fields type)]
    else none

/-- The content without settings that are still to be carried out. An extension that has their
number stays. -/
def withoutSettings (fields : List TypedField) (type : MessageType) (content : Content) :
    Content :=
  content.without
    ((type.field? fields namedSettings.1).filter (·.extensionName.isNone)).toList

end Content

structure Settling where
  files : List File
  fields : List TypedField
  /-- What the file sees. -/
  visible : Visible

namespace Settling

/-- The options of a declaration once all settings have been carried out and dropped. What comes
out has to be options again. -/
def options? (settling : Settling) (kind : OptionKind) (scope : String) (options : Bytes) :
    Option Bytes := do
  let type : MessageType := { name := optionsType settling.files kind }
  let content ← Content.read? settling.fields type options
  let extension? (name : String) : Option String :=
    (settling.visible.resolve? [.extension] scope name).map (·.fullName)
  let settled ← (settingsIn options).foldlM
    (fun (content : Content) setting =>
      content.apply settling.fields extension? setting setting.path type.name)
    content
  let encoded := (settled.withoutSettings settling.fields type).encode settling.fields type
  if kind.accepts nestingLimit encoded then some encoded else none

def field? (settling : Settling) (scope : String) (field : Field) : Option Field := do
  let options ← field.options.mapM (settling.options? .field (scopedName scope field.name))
  return { field with options }

def oneof? (settling : Settling) (message : String) (oneof : Oneof) : Option Oneof := do
  let options ← settling.options? .oneof (scopedName message oneof.name) oneof.options
  return { oneof with options }

def range? (settling : Settling) (message : String) (range : ExtensionRange) :
    Option ExtensionRange := do
  let options ← settling.options? .extensionRange message range.options
  return { range with options }

def enumValue? (settling : Settling) (scope : String) (value : EnumValue) : Option EnumValue := do
  let options ← settling.options? .enumValue (scopedName scope value.name) value.options
  return { value with options }

def enumeration? (settling : Settling) (scope : String) (enumeration : Enumeration) :
    Option Enumeration := do
  let values ← enumeration.values.mapM (settling.enumValue? scope)
  let options ←
    settling.options? .enumeration (scopedName scope enumeration.name) enumeration.options
  return { enumeration with values, options }

def message? (settling : Settling) (fullName : String) (message : Message) : Option Message := do
  let fields ← message.fields.mapM (settling.field? fullName)
  let enums ← message.enums.mapM (settling.enumeration? fullName)
  let extensions ← message.extensions.mapM (settling.field? fullName)
  let oneofs ← message.oneofs.mapM (settling.oneof? fullName)
  let extensionRanges ← message.extensionRanges.mapM (settling.range? fullName)
  let options ← settling.options? .message fullName message.options
  return { message with fields, enums, extensions, oneofs, extensionRanges, options }

def method? (settling : Settling) (service : String) (method : Method) : Option Method := do
  let options ← settling.options? .method (scopedName service method.name) method.options
  return { method with options }

def service? (settling : Settling) (package : String) (service : Service) : Option Service := do
  let fullName := scopedName package service.name
  let methods ← service.methods.mapM (settling.method? fullName)
  let options ← settling.options? .service fullName service.options
  return { service with methods, options }

def file? (settling : Settling) (file : File) : Option File := do
  let messages ← mapMessagesM settling.message? file.package file.messages
  let enums ← file.enums.mapM (settling.enumeration? file.package)
  let services ← file.services.mapM (settling.service? file.package)
  let extensions ← file.extensions.mapM (settling.field? file.package)
  let options ← settling.options? .file file.package file.options
  return { file with messages, enums, services, extensions, options }

end Settling

/-- Settles the options of linked files, given what each of them sees. -/
def settleFiles (seen : List Visible) (files : List File) : Option (List File) :=
  let fields := typedFields files files ++ standardFields
  (seen.zip files).mapM fun (visible, file) => Settling.file? ⟨files, fields, visible⟩ file

end HttpClientGen.Descriptor
