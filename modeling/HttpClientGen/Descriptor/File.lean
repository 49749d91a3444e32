import HttpClientGen.Schema.Declaration
import HttpClientGen.Wire.Record

/-!
# File descriptors

A schema file as it reaches the plug-in: a tree of messages, with references to types by name and
with options that are kept as bytes until it is known how to read them. In a linked descriptor every
type name is the full name of a declaration, with a dot in front.
-/

namespace HttpClientGen.Descriptor

open Wire (Bytes)

/-- The declared type of a field, without the name that goes with it. -/
inductive DeclaredType
  | scalar (kind : ScalarKind)
  | message
  | enumeration
  deriving DecidableEq, Repr

structure Field where
  name : String := ""
  /-- The message that an extension extends. -/
  extendee : Option String := none
  number : Int := 0
  repeated : Bool := false
  type : DeclaredType := .scalar .double
  typeName : String := ""
  /-- Whether the messages of the field stand between the marks of a group. -/
  isGroup : Bool := false
  /-- The default value, as it is written in a schema. -/
  defaultText : Option String := none
  jsonName : Option String := none
  /-- The position of the field's group of alternatives in the message. -/
  oneofIndex : Option Int := none
  explicitPresence : Bool := false
  /-- Whether lists are written with their values one behind the other. This is decided when the
  field is linked. -/
  packed : Bool := false
  options : Option Bytes := none
  deriving DecidableEq, Repr

structure NumberRange where
  start : Int := 0
  stop : Int := 0
  deriving DecidableEq, Repr

/-- A range of numbers that a message leaves to extensions. -/
structure ExtensionRange where
  range : NumberRange := {}
  options : Bytes := []
  deriving DecidableEq, Repr

structure EnumValue where
  name : String := ""
  number : Int := 0
  options : Bytes := []
  deriving DecidableEq, Repr

structure Enumeration where
  name : String := ""
  values : List EnumValue := []
  reservedRanges : List NumberRange := []
  options : Bytes := []
  deriving DecidableEq, Repr

/-- A group of alternative fields. -/
structure Oneof where
  name : String := ""
  options : Bytes := []
  deriving DecidableEq, Repr

/-- A message and what is declared inside of it. -/
structure Message where
  name : String := ""
  nested : List Message := []
  fields : List Field := []
  enums : List Enumeration := []
  extensions : List Field := []
  oneofs : List Oneof := []
  extensionRanges : List ExtensionRange := []
  reservedRanges : List NumberRange := []
  options : Bytes := []
  deriving Repr

structure Method where
  name : String := ""
  input : String := ""
  output : String := ""
  clientStreaming : Bool := false
  serverStreaming : Bool := false
  options : Bytes := []
  deriving DecidableEq, Repr

structure Service where
  name : String := ""
  methods : List Method := []
  options : Bytes := []
  deriving DecidableEq, Repr

/-- The comment in front of a declaration. The path of a declaration alternates field numbers of
the descriptor's own format with positions. -/
structure Location where
  path : List Int := []
  leadingComments : Option String := none
  deriving DecidableEq, Repr

structure File where
  name : String := ""
  package : String := ""
  dependencies : List String := []
  /-- The positions of the dependencies that are passed on to files that import this one. -/
  publicDependencies : List Int := []
  /-- The positions of the dependencies that need not be there. -/
  weakDependencies : List Int := []
  messages : List Message := []
  enums : List Enumeration := []
  services : List Service := []
  extensions : List Field := []
  options : Bytes := []
  locations : List Location := []
  /-- The version of the format, as the file names it. -/
  syntaxName : Option String := none
  deriving Repr

/-- Something that is declared, and the full name of what it is declared in. -/
structure Scoped (α : Type) where
  scope : String
  item : α
  deriving Repr

mutual

/-- A message of a scope and all messages nested in it, each in front of those it holds. -/
def Message.withNested (scope : String) : Message → List (Scoped Message)
  | message@⟨name, nested, _, _, _, _, _, _, _⟩ =>
    ⟨scope, message⟩ :: withNestedAll (scopedName scope name) nested

def withNestedAll (scope : String) : List Message → List (Scoped Message)
  | [] => []
  | message :: messages => message.withNested scope ++ withNestedAll scope messages

end

mutual

/-- The extensions that are declared in a message of a scope. Those of nested messages come
first. -/
def Message.extensionsInside (scope : String) : Message → List (Scoped Field)
  | ⟨name, nested, _, _, extensions, _, _, _, _⟩ =>
    extensionsInsideAll (scopedName scope name) nested ++
      extensions.map (⟨scopedName scope name, ·⟩)

def extensionsInsideAll (scope : String) : List Message → List (Scoped Field)
  | [] => []
  | message :: messages => message.extensionsInside scope ++ extensionsInsideAll scope messages

end

mutual

/-- A message of a scope after `change`, which gets its full name, has been applied to it and to all
messages nested in it. The nested messages that `change` gives are not looked at. -/
def Message.mapM (change : String → Message → Option Message) (scope : String) :
    Message → Option Message
  | message@⟨name, nested, _, _, _, _, _, _, _⟩ => do
    let changed ← change (scopedName scope name) message
    let nested ← mapMessagesM change (scopedName scope name) nested
    return { changed with nested }

/-- The messages of a scope after `change` has been applied to all of them. -/
def mapMessagesM (change : String → Message → Option Message) (scope : String) :
    List Message → Option (List Message)
  | [] => some []
  | message :: messages => do
    let message ← message.mapM change scope
    return message :: (← mapMessagesM change scope messages)

end

def Scoped.fullName (message : Scoped Message) : String :=
  scopedName message.scope message.item.name

namespace File

/-- All messages of a file, nested ones included. -/
def allMessages (file : File) : List (Scoped Message) :=
  withNestedAll file.package file.messages

def allEnums (file : File) : List (Scoped Enumeration) :=
  file.enums.map (⟨file.package, ·⟩) ++
    file.allMessages.flatMap fun message => message.item.enums.map (⟨message.fullName, ·⟩)

/-- All extensions that a file declares. Those in messages come first, the innermost in front. -/
def allExtensions (file : File) : List (Scoped Field) :=
  extensionsInsideAll file.package file.messages ++ file.extensions.map (⟨file.package, ·⟩)

end File

end HttpClientGen.Descriptor
