import HttpClientGen.Descriptor.OptionSetting
import HttpClientGen.Descriptor.DeclaredValue

/-!
# Rules of the format

What has to hold of the declarations in a file, apart from what their names refer to. Most rules
look at one message or enumeration only. The last ones are for linked files, since they need the
type of a field or the message that an extension extends.
-/

namespace HttpClientGen.Descriptor

/-- The JSON name of a field that declares none: underscores are dropped and the ASCII letter
behind one becomes a capital. -/
def defaultJsonName (name : String) : String :=
  String.ofList (go false name.toList)
where
  /-- The rest of the name, whose first character becomes a capital if asked for. -/
  go (capital : Bool) : List Char → List Char
    | [] => []
    | '_' :: cs => go true cs
    | c :: cs => (if capital then c.toUpper else c) :: go false cs

def Field.jsonNameOrDefault (field : Field) : String :=
  field.jsonName.getD (defaultJsonName field.name)

/-- The numbers that fields may have; those from 19000 to 19999 are reserved. -/
def isFieldNumber (n : Int) : Bool :=
  1 ≤ n && n ≤ 536870911 && !(19000 ≤ n && n ≤ 19999)

/-- Whether a number lies in a range that ends in front of its second number. -/
def NumberRange.hasBefore (range : NumberRange) (n : Int) : Bool :=
  range.start ≤ n && n < range.stop

/-- Whether a number lies in a range that ends with its second number. -/
def NumberRange.hasUpTo (range : NumberRange) (n : Int) : Bool :=
  range.start ≤ n && n ≤ range.stop

/-- A name in lower case and without underscores. -/
def foldedName (name : String) : List Char :=
  (name.toList.filter (· ≠ '_')).map Char.toLower

inductive FormatVersion
  | proto2
  | proto3
  deriving DecidableEq, Repr

/-- The version that a file declares; without a declaration it is the older one. -/
def File.version? (file : File) : Option FormatVersion :=
  match file.syntaxName with
  | none | some "proto2" => some .proto2
  | some "proto3" => some .proto3
  | some _ => none

/-- The rules for an enumeration: it has a value, the first one is zero in the newer version, no
value has a reserved number, and a number has one name unless aliases are allowed. -/
def Enumeration.isValid (version : FormatVersion) (enumeration : Enumeration) : Bool :=
  (match enumeration.values with
  | [] => false
  | first :: _ => version = .proto2 || first.number = 0) &&
  enumeration.values.all (fun value =>
    enumeration.reservedRanges.all (!·.hasUpTo value.number)) &&
  (flagIsSet 2 "allow_alias" enumeration.options || (enumeration.values.map (·.number)).Nodup)

/-- Whether a message has room for a field: its number is a possible one, it is not reserved, and
it lies among the numbers for extensions exactly if the field names a message to extend. -/
def Message.hasRoomFor (message : Message) (field : Field) : Bool :=
  isFieldNumber field.number &&
  message.reservedRanges.all (!·.hasBefore field.number) &&
  message.extensionRanges.any (·.range.hasBefore field.number) == field.extendee.isSome

/-- The rules for the fields of a message: there is room for them, numbers and JSON names are
unique, groups of alternatives exist, and in the newer version names differ in more than case and
underscores. -/
def Message.isValid (version : FormatVersion) (message : Message) : Bool :=
  message.fields.all (fun field => message.hasRoomFor field &&
    field.oneofIndex.all fun (index : Int) => 0 ≤ index && index < message.oneofs.length) &&
  (message.fields.map (·.number)).Nodup &&
  (message.fields.map (·.jsonNameOrDefault)).Nodup &&
  (version = .proto2 || (message.fields.map (foldedName ·.name)).Nodup)

def File.isValid (file : File) : Bool :=
  match file.version? with
  | none => false
  | some version =>
    file.allEnums.all (·.item.isValid version) && file.allMessages.all (·.item.isValid version)

/-- The message with a full name, which has a dot in front. -/
def messageNamed? (files : List File) (name : String) : Option Message :=
  ((files.flatMap File.allMessages).find? fun message => "." ++ message.fullName = name).map
    (·.item)

/-- The values of all enumerations, by the full names of these with a dot in front. -/
def enumerationChoices (files : List File) : List (String × List EnumValue) :=
  (files.flatMap File.allEnums).map fun enumeration =>
    ("." ++ scopedName enumeration.scope enumeration.item.name, enumeration.item.values)

/-- Whether a linked field has a default value of its type, if it has one. -/
def Field.hasValidDefault (choices : List (String × List EnumValue)) (field : Field) : Bool :=
  field.defaultText.all fun text =>
    (defaultValue? field.type ((choices.lookup field.typeName).getD []) text).isSome

/-- The rules for a linked file that look at other files: default values fit, and extended messages
have room for their extensions. -/
def File.suits (files : List File) (file : File) : Bool :=
  let choices := enumerationChoices files
  file.allMessages.all (fun message => message.item.fields.all (·.hasValidDefault choices)) &&
  file.allExtensions.all fun extension =>
    extension.item.hasValidDefault choices &&
    (messageNamed? files (extension.item.extendee.getD "")).any (·.hasRoomFor extension.item)

end HttpClientGen.Descriptor
