import HttpClientGen.Binding

/-!
# Declarations of a schema

Messages with their fields, enumerations, services with their methods, and the files that hold
them. Messages and enumerations refer to each other by full name. Nested declarations are flattened
into the file, so a message knows its nesting only by its name.
-/

namespace HttpClientGen

/-!
## Names of declarations

A declaration is known by its package and by its path in the package, such as `Shelf.Book` for a
message inside a message.
-/

/-- A text with every occurrence of one character replaced by another text. -/
def replaceChar (text : String) (old : Char) (new : String) : String :=
  String.ofList (text.toList.flatMap fun c => if c = old then new.toList else [c])

/-- A name with the scope in front of it, if there is one. -/
def scopedName (scope name : String) : String :=
  if scope = "" then name else scope ++ "." ++ name

/-- The package of a declaration and its path in the package. -/
structure QualifiedName where
  package : String
  path : String
  deriving DecidableEq, Repr, Inhabited

namespace QualifiedName

/-- The last name of the path. -/
def name (declared : QualifiedName) : String :=
  String.ofList ((Text.pieces '.' declared.path.toList).getLastD [])

def fullName (declared : QualifiedName) : String :=
  scopedName declared.package declared.path

/-- The name of the generated type in the package's own output: the path with `_` for each dot. -/
def typeName (declared : QualifiedName) : String :=
  replaceChar declared.path '.' "_"

end QualifiedName

/-!
## Field behaviours

The annotations that say how a field takes part in requests and responses.
-/

inductive FieldBehavior
  | unspecified
  | optional
  | required
  | outputOnly
  | inputOnly
  | immutable
  | unorderedList
  | nonEmptyDefault
  | identifier
  deriving DecidableEq, Repr

namespace FieldBehavior

def ofNumber? : Int → Option FieldBehavior
  | 0 => some unspecified
  | 1 => some optional
  | 2 => some required
  | 3 => some outputOnly
  | 4 => some inputOnly
  | 5 => some immutable
  | 6 => some unorderedList
  | 7 => some nonEmptyDefault
  | 8 => some identifier
  | _ => none

def name : FieldBehavior → String
  | unspecified => "FIELD_BEHAVIOR_UNSPECIFIED"
  | optional => "OPTIONAL"
  | required => "REQUIRED"
  | outputOnly => "OUTPUT_ONLY"
  | inputOnly => "INPUT_ONLY"
  | immutable => "IMMUTABLE"
  | unorderedList => "UNORDERED_LIST"
  | nonEmptyDefault => "NON_EMPTY_DEFAULT"
  | identifier => "IDENTIFIER"

/-- The behaviours that give a message another shape, or other optional fields, in requests than in
responses. -/
def discriminates : FieldBehavior → Bool
  | outputOnly | inputOnly | optional => true
  | _ => false

end FieldBehavior

/-! ## The declarations -/

/-- The built-in types of a field. -/
inductive ScalarKind
  | double
  | float
  | int64
  | uint64
  | int32
  | fixed64
  | fixed32
  | bool
  | string
  | bytes
  | uint32
  | sfixed32
  | sfixed64
  | sint32
  | sint64
  deriving DecidableEq, Repr

/-- The type of a field, or of its elements. -/
inductive FieldKind
  | scalar (kind : ScalarKind)
  | enumeration (fullName : String)
  | message (fullName : String)
  deriving DecidableEq, Repr

def FieldKind.message? : FieldKind → Option String
  | message fullName => some fullName
  | _ => none

/-- How many values a field holds. In a map the kind of the field is that of the values. -/
inductive Cardinality
  | singular
  | repeated
  | map
  deriving DecidableEq, Repr

structure Field where
  name : String
  kind : FieldKind
  /-- The name of the field in JSON. -/
  jsonName : String := Text.lowerCamel name
  cardinality : Cardinality := .singular
  /-- The group of alternatives that the field belongs to. -/
  oneof : Option String := none
  /-- Whether the field tells an absent value from a default one. -/
  explicitPresence : Bool := false
  behaviors : List FieldBehavior := []
  /-- Whether a number is written as a string in JSON. -/
  stringEncoded : Bool := false
  comments : Option String := none
  deriving DecidableEq, Repr

/-- Whether the field itself, and not a message behind it, asks for separate shapes. -/
def Field.discriminates (field : Field) : Bool :=
  field.behaviors.any FieldBehavior.discriminates

structure Message where
  declared : QualifiedName
  fields : List Field := []
  comments : Option String := none
  deriving DecidableEq, Repr

namespace Message

def fullName (message : Message) : String :=
  message.declared.fullName

/-- The first field with a name. -/
def field? (message : Message) (name : String) : Option Field :=
  message.fields.find? (·.name = name)

/-- The full names of the messages that the fields refer to, in the order of the fields. -/
def targets (message : Message) : List String :=
  message.fields.filterMap (·.kind.message?)

end Message

structure EnumValue where
  name : String
  number : Int := 0
  comments : Option String := none
  deriving DecidableEq, Repr

structure Enumeration where
  declared : QualifiedName
  values : List EnumValue := []
  comments : Option String := none
  deriving DecidableEq, Repr

def Enumeration.fullName (enumeration : Enumeration) : String :=
  enumeration.declared.fullName

/-- A method of a service. Input and output are full names of messages. -/
structure Method where
  name : String
  input : String
  output : String
  clientStreaming : Bool := false
  serverStreaming : Bool := false
  binding : Option Binding := none
  comments : Option String := none
  deriving DecidableEq, Repr

structure Service where
  declared : QualifiedName
  methods : List Method := []
  comments : Option String := none
  deriving DecidableEq, Repr

namespace Service

def name (service : Service) : String :=
  service.declared.name

def fullName (service : Service) : String :=
  service.declared.fullName

end Service

structure SchemaFile where
  name : String
  package : String
  messages : List Message := []
  enums : List Enumeration := []
  services : List Service := []
  deriving DecidableEq, Repr

end HttpClientGen
