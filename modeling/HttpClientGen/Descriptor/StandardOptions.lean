import HttpClientGen.Descriptor.TypedField

/-!
# The options of the format itself

A request may declare the messages that options are made of, and then extend them. For those that it
does not declare there are standard ones. Their names have no dot in front, so that no reference in
a file can mean them.
-/

namespace HttpClientGen.Descriptor

/-- An option that a standard message of options has. -/
structure StandardOption where
  number : Int
  name : String
  type : DeclaredType
  /-- The names and numbers of the values, if it is an enumeration. -/
  choices : List (String × Int) := []

def flagOption (number : Int) (name : String) : StandardOption :=
  ⟨number, name, .scalar .bool, []⟩

def textOption (number : Int) (name : String) : StandardOption :=
  ⟨number, name, .scalar .string, []⟩

def choiceOption (number : Int) (name : String) (choices : List (String × Int)) : StandardOption :=
  ⟨number, name, .enumeration, choices⟩

def standardOptions : OptionKind → List StandardOption
  | .file =>
    [textOption 1 "java_package", textOption 8 "java_outer_classname",
      choiceOption 9 "optimize_for" [("SPEED", 1), ("CODE_SIZE", 2), ("LITE_RUNTIME", 3)],
      flagOption 10 "java_multiple_files", textOption 11 "go_package",
      flagOption 16 "cc_generic_services", flagOption 17 "java_generic_services",
      flagOption 18 "py_generic_services", flagOption 20 "java_generate_equals_and_hash",
      flagOption 23 "deprecated", flagOption 27 "java_string_check_utf8",
      flagOption 31 "cc_enable_arenas", textOption 36 "objc_class_prefix",
      textOption 37 "csharp_namespace", textOption 39 "swift_prefix",
      textOption 40 "php_class_prefix", textOption 41 "php_namespace",
      flagOption 42 "php_generic_services", textOption 44 "php_metadata_namespace",
      textOption 45 "ruby_package"]
  | .message =>
    [flagOption 1 "message_set_wire_format", flagOption 2 "no_standard_descriptor_accessor",
      flagOption 3 "deprecated", flagOption 7 "map_entry"]
  | .field =>
    [choiceOption 1 "ctype" [("STRING", 0), ("CORD", 1), ("STRING_PIECE", 2)],
      flagOption 2 "packed", flagOption 3 "deprecated", flagOption 5 "lazy",
      choiceOption 6 "jstype" [("JS_NORMAL", 0), ("JS_STRING", 1), ("JS_NUMBER", 2)],
      flagOption 10 "weak", flagOption 15 "unverified_lazy"]
  | .oneof | .extensionRange => []
  | .enumeration => [flagOption 2 "allow_alias", flagOption 3 "deprecated"]
  | .enumValue => [flagOption 1 "deprecated"]
  | .service => [flagOption 33 "deprecated"]
  | .method =>
    [flagOption 33 "deprecated",
      choiceOption 34 "idempotency_level"
        [("IDEMPOTENCY_UNKNOWN", 0), ("NO_SIDE_EFFECTS", 1), ("IDEMPOTENT", 2)]]

def OptionKind.standardName : OptionKind → String
  | file => "google.protobuf.FileOptions"
  | message => "google.protobuf.MessageOptions"
  | field => "google.protobuf.FieldOptions"
  | oneof => "google.protobuf.OneofOptions"
  | extensionRange => "google.protobuf.ExtensionRangeOptions"
  | enumeration => "google.protobuf.EnumOptions"
  | enumValue => "google.protobuf.EnumValueOptions"
  | service => "google.protobuf.ServiceOptions"
  | method => "google.protobuf.MethodOptions"

def standardField (message : String) (field : Field) (choices : List EnumValue) : TypedField where
  message := message
  field := field
  hasPresence := true
  choices := choices

def StandardOption.typed (kind : OptionKind) (option : StandardOption) : TypedField :=
  standardField kind.standardName
    { name := option.name, number := option.number, type := option.type }
    (option.choices.map fun (name, number) => { name, number })

def settingFields : List TypedField :=
  let setting := "google.protobuf.UninterpretedOption"
  let part := "google.protobuf.UninterpretedOption.NamePart"
  let scalar (number : Int) (name : String) (kind : ScalarKind) : Field :=
    { name, number, type := .scalar kind }
  let parts : Field :=
    { name := "name", number := 2, type := .message, typeName := part, repeated := true }
  (parts ::
    [scalar 3 "identifier_value" .string, scalar 4 "positive_int_value" .uint64,
      scalar 5 "negative_int_value" .int64, scalar 6 "double_value" .double,
      scalar 7 "string_value" .bytes, scalar 8 "aggregate_value" .string]).map
      (standardField setting · []) ++
  [scalar 1 "name_part" .string, scalar 2 "is_extension" .bool].map (standardField part · [])

/-- The fields of the standard message for a kind of declaration, which has a list of settings
beside its options. -/
def OptionKind.standardFields (kind : OptionKind) : List TypedField :=
  (standardOptions kind).map (·.typed kind) ++
    [standardField kind.standardName
      { name := "uninterpreted_option", number := 999, type := .message, repeated := true
        typeName := "google.protobuf.UninterpretedOption" } []]

def standardFields : List TypedField :=
  [OptionKind.file, .message, .field, .oneof, .extensionRange, .enumeration, .enumValue, .service,
    .method].flatMap OptionKind.standardFields ++ settingFields

/-- The name of the message that the options of a kind of declaration are read as: the one that the
files declare, if there is one. -/
def optionsType (files : List File) (kind : OptionKind) : String :=
  let declared := "." ++ kind.standardName
  if (messageNamed? files declared).isSome then declared else kind.standardName

end HttpClientGen.Descriptor
