import HttpClientGen.Descriptor.Definition
import HttpClientGen.Descriptor.Rules

/-!
# Linking

A set of file descriptors is linked by checking the rules of the format and by resolving every
reference to a type. The linked files differ from the given ones in three ways: type names are full
names with a dot in front, together with the kind of type that they stand for; every field has its
JSON name; and it is decided which lists are packed.
-/

namespace HttpClientGen.Descriptor

/-- Whether a list is written packed. The field's options decide, even if there are none among them;
a field without options is packed in the newer version of the format. -/
def Field.isPacked (version : Option FormatVersion) (field : Field) : Bool :=
  field.repeated && field.type.isPackable &&
    match field.options with
    | none => version = some .proto3
    | some options => (lastNumber? 2 options).any (· ≠ 0)

/-- The full name of a message that is referred to from a scope, with a dot in front. -/
def Visible.messageRef? (visible : Visible) (scope name : String) : Option String :=
  (visible.resolve? [.message] scope name).map ("." ++ ·.fullName)

/-- A field with its type resolved, given what is referred to: a field with a type name has the kind
of type that the name stands for. -/
def Field.withType (field : Field) (definition : Definition) : Field :=
  { field with
    typeName := "." ++ definition.fullName
    type := if definition.kind = .enumeration then .enumeration else .message }

/-- A field of a scope with its type resolved. The type name is looked up from the field itself
outwards. A field without a type name has the built-in type that it declares. -/
def Field.link (visible : Visible) (version : Option FormatVersion) (scope : String)
    (field : Field) : Option Field := do
  let typed ←
    if field.typeName = "" then if field.type matches .scalar _ then some field else none
    else
      (visible.resolve? [.message, .enumeration] (scopedName scope field.name) field.typeName).map
        field.withType
  return { typed with
    jsonName := some field.jsonNameOrDefault
    packed := typed.isPacked version }

def Field.linkExtension (visible : Visible) (version : Option FormatVersion) (scope : String)
    (extension : Field) : Option Field := do
  let linked ← extension.link visible version scope
  let extendee ← visible.messageRef? (scopedName scope extension.name)
    (extension.extendee.getD "")
  return { linked with extendee := some extendee }

/-- A message with the references of its own fields and extensions resolved. -/
def Message.linkOwn (visible : Visible) (version : Option FormatVersion) (fullName : String)
    (message : Message) : Option Message := do
  let fields ← message.fields.mapM (Field.link visible version fullName)
  let extensions ← message.extensions.mapM (Field.linkExtension visible version fullName)
  return { message with fields, extensions }

def Method.link (visible : Visible) (service : String) (method : Method) : Option Method := do
  let scope := scopedName service method.name
  let input ← visible.messageRef? scope method.input
  let output ← visible.messageRef? scope method.output
  return { method with input, output }

def Service.link (visible : Visible) (package : String) (service : Service) : Option Service := do
  let methods ← service.methods.mapM (Method.link visible (scopedName package service.name))
  return { service with methods }

def File.link (visible : Visible) (file : File) : Option File := do
  let messages ← mapMessagesM (Message.linkOwn visible file.version?) file.package file.messages
  let services ← file.services.mapM (Service.link visible file.package)
  let extensions ←
    file.extensions.mapM (Field.linkExtension visible file.version? file.package)
  return { file with messages, services, extensions }

/-- What each file of some files can see. Everything that they import has to be there. -/
def visibleInEach (files : List File) : Option (List Visible) := do
  let imports ← files.mapM (importsOf files)
  let publicImports ← files.mapM (publicImportsOf files)
  let definitions := definitionsOf files ++ packagesIn files
  return (List.range files.length).map fun index =>
    { definitions, files := seenFrom imports publicImports index }

def linkFiles (seen : List Visible) (files : List File) : Option (List File) := do
  if !(files.map (·.name)).Nodup || !namesAreUnique files || !files.all File.isValid then none
  else
    let linked ← (seen.zip files).mapM fun (visible, file) => file.link visible
    if linked.all (File.suits linked) then some linked else none

end HttpClientGen.Descriptor
