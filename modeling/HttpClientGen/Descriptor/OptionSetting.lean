import HttpClientGen.Descriptor.Decoder

/-!
# Options that are set by name

Options may hold settings of the form `(an.extension).field = value` that have not been carried out
yet. Each has a path of names and one value, whose meaning depends on the type of what it is for.
-/

namespace HttpClientGen.Descriptor

open Wire

/-- A part of the path of an option. -/
structure NamePart where
  name : String := ""
  /-- Whether the part is the name of an extension, and not of a field. -/
  isExtension : Bool := false
  deriving DecidableEq, Repr

/-- An option that is set by name. -/
structure OptionSetting where
  path : List NamePart := []
  identifier : Option String := none
  positive : Option Nat := none
  negative : Option Int := none
  /-- A number of double precision, as its eight bytes. -/
  double : Option Bytes := none
  content : Option Bytes := none
  aggregate : Option String := none
  deriving DecidableEq, Repr

def NamePart.mergeRecord (part : NamePart) (record : Record) : Option NamePart :=
  match record.field with
  | 1 => record.value.text?.map fun name => { part with name }
  | 2 => record.value.flag?.map fun isExtension => { part with isExtension }
  | _ => some part

namespace OptionSetting

def mergeRecord (setting : OptionSetting) (record : Record) : Option OptionSetting :=
  match record.field with
  | 2 => do
    let part ← mergeAll NamePart.mergeRecord {} (← record.value.bytes?)
    return { setting with path := setting.path ++ [part] }
  | 3 => record.value.text?.map fun identifier => { setting with identifier := some identifier }
  | 4 => record.value.varint?.map fun number => { setting with positive := some number }
  | 5 => record.value.varint?.map fun number =>
      { setting with negative := some (signed64 number) }
  | 6 => record.value.fixed64?.map fun double => { setting with double := some double }
  | 7 => record.value.bytes?.map fun content => { setting with content := some content }
  | 8 => record.value.text?.map fun aggregate => { setting with aggregate := some aggregate }
  | _ => some setting

def read (bytes : Bytes) : Option OptionSetting :=
  mergeAll mergeRecord {} bytes

def number? (setting : OptionSetting) : Option Int :=
  (setting.positive.map fun (n : Nat) => (n : Int)).orElse fun _ => setting.negative

end OptionSetting

def settingsIn (options : Bytes) : List OptionSetting :=
  ((records? options).getD []).filterMap fun record =>
    if record.field = namedSettings.1 then record.value.bytes?.bind OptionSetting.read else none

/-- Whether a truth option is set, by number or by name. -/
def flagIsSet (number : Nat) (name : String) (options : Bytes) : Bool :=
  (lastNumber? number options).any (· ≠ 0) ||
    (settingsIn options).any fun setting =>
      setting.path = [⟨name, false⟩] && setting.identifier = some "true"

end HttpClientGen.Descriptor
