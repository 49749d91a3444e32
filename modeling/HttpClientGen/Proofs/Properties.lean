import HttpClientGen.Proofs.Needed
import HttpClientGen.Proofs.Runs

/-!
# The properties of written shapes

Every record that a run writes shows the fields of a message in the order of their declaration. The
default shape shows all of them, and the shape for a direction those that travel in it; only there the
fields that may be absent are marked. Their types differ from those of the default shape by the suffix
of the direction where a field holds a message that needs separate shapes.
-/

namespace HttpClientGen

def Message.shown (message : Message) : Option Direction → List Field
  | none => message.fields
  | some .request => message.fields.filter (FieldBehavior.outputOnly ∉ ·.behaviors)
  | some .response => message.fields.filter (FieldBehavior.inputOnly ∉ ·.behaviors)

/-- What is marked in a shape: nothing in the default shape, and in the others the fields of a oneof,
those with explicit presence and those that are said to be optional. -/
def Field.IsMarked (field : Field) : Option Direction → Prop
  | none => False
  | some _ => field.oneof.isSome ∨ field.explicitPresence ∨ FieldBehavior.optional ∈ field.behaviors

theorem Message.shown_some (message : Message) (direction : Direction) :
    message.shown (some direction) = message.fieldsIn direction := by
  cases direction <;> rfl

theorem Field.mayBeAbsent_iff {field : Field} (direction : Direction) :
    field.mayBeAbsent = true ↔ field.IsMarked (some direction) := by
  simp [mayBeAbsent, IsMarked, or_assoc]

/-- A property presents a field under its name in JSON, behind its documentation, and with a question
mark if it is marked. -/
structure Property.Presents (property : Property) (field : Field) (marked : Prop) : Prop where
  name : property.name = field.jsonName
  optional : property.optional = true ↔ marked
  lines : ∃ mark, (marked ∧ mark = "?" ∨ ¬marked ∧ mark = "") ∧
    property.render = field.doc.render 1 ++
      [⟨1, field.jsonName ++ mark ++ ": " ++ property.type.render ++ ";"⟩]

theorem Property.presents {property : Property} {field : Field} {marked : Prop}
    (doc : property.doc = field.doc) (name : property.name = field.jsonName)
    (optional : property.optional = true ↔ marked) : property.Presents field marked := by
  refine ⟨name, optional, if property.optional then "?" else "", ?_, ?_⟩
  · by_cases isOptional : property.optional = true
    · exact Or.inl ⟨optional.mp isOptional, if_pos isOptional⟩
    · exact Or.inr ⟨fun isMarked => isOptional (optional.mpr isMarked), if_neg isOptional⟩
  · rw [render, doc, name]

/-- The properties of a record are those of the fields that a shape shows, in their order. -/
def RecordType.Shows (record : RecordType) (source : Message) (shape : Option Direction) : Prop :=
  List.Forall₂ (fun field property => property.Presents field (field.IsMarked shape))
    (source.shown shape) record.properties

/-- A property of a record stands at the place of a field that a shape shows. -/
def RecordType.Assigns (record : RecordType) (source : Message) (shape : Option Direction)
    (field : Field) (property : Property) : Prop :=
  (field, property) ∈ (source.shown shape).zip record.properties

namespace RecordType.Shows

variable {record request response : RecordType} {source : Message} {shape : Option Direction}
  {field : Field}

theorem presents (shows : record.Shows source shape) {property : Property}
    (assigns : record.Assigns source shape field property) :
    property.Presents field (field.IsMarked shape) :=
  (List.forall₂_iff_zip.mp shows).2 assigns

end RecordType.Shows

def TypeExpr.mapLeaf (f : String → String) : TypeExpr → TypeExpr
  | named name => .named (f name)
  | list element => .list (element.mapLeaf f)
  | map value => .map (value.mapLeaf f)

theorem Cardinality.mapLeaf_wrap (f : String → String) (cardinality : Cardinality)
    (element : TypeExpr) :
    (cardinality.wrap element).mapLeaf f = cardinality.wrap (element.mapLeaf f) := by
  cases cardinality <;> rfl

/-- A field holds a message of the schema that is not well known and is said to need separate
shapes. -/
def Field.HoldsSeparate (field : Field) (schema : Schema) (separate : String → Bool) : Prop :=
  ∃ fullName target, field.kind = .message fullName ∧ isWellKnown fullName = false ∧
    schema.message? fullName = some target ∧ separate fullName = true

namespace Viewpoint

variable {view : Viewpoint} {session : Session}

/-- The type of a property in a shape, compared with the type that the field has by default. The
suffix of a direction is added where the field holds a message that needs separate shapes, and there
the encoding as a string has no effect. -/
structure Types (view : Viewpoint) (separate : String → Bool) (options : Options)
    (shape : Option Direction) (field : Field) (property : Property) : Prop where
  default : shape = none ∨ ¬field.HoldsSeparate view.schema separate →
    property.type = view.fieldType field
  encoded : shape = none ∨ ¬field.HoldsSeparate view.schema separate →
    field.stringEncoded = true → property.type = field.cardinality.wrap (.named "string")
  suffixed : ∀ direction, shape = some direction → field.HoldsSeparate view.schema separate →
    field.stringEncoded = false →
    property.type = (view.fieldType field).mapLeaf (withSuffix · (options.suffixOf direction))
  overridden : ∀ direction, shape = some direction → field.HoldsSeparate view.schema separate →
    field.stringEncoded = true →
    property.type = (view.fieldType { field with stringEncoded := false }).mapLeaf
      (withSuffix · (options.suffixOf direction))

theorem fieldType_of_stringEncoded {field : Field} (encoded : field.stringEncoded = true) :
    view.fieldType field = field.cardinality.wrap (.named "string") := by
  rw [fieldType, elementType, if_pos encoded]

/-- The type for a field that holds a message, with a suffix to the message. -/
theorem mapLeaf_fieldType (view : Viewpoint) (field : Field) {fullName : String}
    (kind : field.kind = .message fullName) (plain : field.stringEncoded = false)
    (options : Options) (direction : Direction) :
    (view.fieldType field).mapLeaf (withSuffix · (options.suffixOf direction)) =
      field.cardinality.wrap (.named (view.variantName options direction fullName)) := by
  have element : view.elementType field = .named (view.messageName fullName) := by
    simp [elementType, kind, plain]
  rw [fieldType, Cardinality.mapLeaf_wrap, element]
  rfl

theorem holdsSeparate_iff {memo : Memo} {field : Field} :
    field.HoldsSeparate view.schema (memo.answer view.schema) ↔
      ∃ fullName, field.target? (memo.answer view.schema) = some fullName := by
  constructor
  · rintro ⟨fullName, -, kind, ordinary, -, separate⟩
    exact ⟨fullName, Field.target?_eq_some_iff.mpr ⟨kind, ordinary, separate⟩⟩
  · rintro ⟨fullName, target⟩
    obtain ⟨kind, ordinary, separate⟩ := Field.target?_eq_some_iff.mp target
    obtain ⟨message, found⟩ := Memo.exists_message?_of_answer separate
    exact ⟨fullName, message, kind, ordinary, found, separate⟩

/-- In the default shape, and where a field holds no message that needs separate shapes, the type is
the one that the field has by default. -/
theorem types_of_default {separate : String → Bool} {options : Options}
    {shape : Option Direction} {field : Field} {property : Property}
    (kept : shape = none ∨ ¬field.HoldsSeparate view.schema separate)
    (same : property.type = view.fieldType field) :
    view.Types separate options shape field property := by
  have contrary {direction : Direction} (directed : shape = some direction) :
      ¬field.HoldsSeparate view.schema separate := by
    rcases kept with rfl | other
    · cases directed
    · exact other
  constructor
  · exact fun _ => same
  · exact fun _ isEncoded => same.trans (fieldType_of_stringEncoded isEncoded)
  · exact fun _ directed held => absurd held (contrary directed)
  · exact fun _ directed held => absurd held (contrary directed)

/-- The types in the shape for a direction, by what the field holds. -/
theorem types_propertyBy (memo : Memo) (options : Options) (direction : Direction) (field : Field) :
    view.Types (memo.answer view.schema) options (some direction) field
      (view.propertyBy (memo.answer view.schema) options direction field) := by
  cases target : field.target? (memo.answer view.schema) with
  | none =>
    apply types_of_default
    · right
      rw [holdsSeparate_iff, target]
      rintro ⟨_, ⟨⟩⟩
    · simp only [propertyBy, target]
  | some fullName =>
    have holds : field.HoldsSeparate view.schema (memo.answer view.schema) :=
      holdsSeparate_iff.mpr ⟨fullName, target⟩
    have kind := (Field.target?_eq_some_iff.mp target).1
    have same : (view.propertyBy (memo.answer view.schema) options direction field).type =
        field.cardinality.wrap (.named (view.variantName options direction fullName)) := by
      simp only [propertyBy, target]
    have directed : ¬(some direction = none ∨
        ¬field.HoldsSeparate view.schema (memo.answer view.schema)) := by simp [holds]
    constructor
    · exact fun other => absurd other directed
    · exact fun other => absurd other directed
    · rintro _ ⟨⟩ - plain
      rw [same, view.mapLeaf_fieldType field kind plain]
    · rintro _ ⟨⟩ - -
      rw [same]
      -- The variant writer never looks at the override, so the type is that of the same field
      -- without it.
      exact (view.mapLeaf_fieldType { field with stringEncoded := false } kind rfl options
        direction).symm

theorem recordBy_name (view : Viewpoint) (separate : String → Bool) (options : Options)
    (source : Message) (shape : Option Direction) :
    (view.recordBy separate options source shape).name = view.typeName options source shape := by
  cases shape <;> rfl

/-- What holds of the property for every field holds of all properties of a shape. -/
theorem forall₂_recordBy {R : Option Direction → Field → Property → Prop} (view : Viewpoint)
    (separate : String → Bool) (options : Options) (source : Message) (shape : Option Direction)
    (default : ∀ field, R none field ⟨field.doc, field.jsonName, false, view.fieldType field⟩)
    (directed : ∀ direction field,
      R (some direction) field (view.propertyBy separate options direction field)) :
    List.Forall₂ (R shape) (source.shown shape)
      (view.recordBy separate options source shape).properties := by
  cases shape with
  | none =>
    apply List.forall₂_map_right_iff.mpr
    apply List.forall₂_same.mpr
    intro field _
    exact default field
  | some direction =>
    rw [Message.shown_some]
    apply List.forall₂_map_right_iff.mpr
    apply List.forall₂_same.mpr
    intro field _
    exact directed direction field

theorem shows_recordBy (view : Viewpoint) (separate : String → Bool) (options : Options)
    (source : Message) (shape : Option Direction) :
    (view.recordBy separate options source shape).Shows source shape := by
  apply forall₂_recordBy (R := fun shape field property =>
    property.Presents field (field.IsMarked shape))
  · intro field
    apply Property.presents rfl rfl
    exact ⟨Bool.false_ne_true, False.elim⟩
  · intro direction field
    exact Property.presents rfl rfl (Field.mayBeAbsent_iff direction)

theorem types_recordBy (view : Viewpoint) (memo : Memo) (options : Options) (source : Message)
    (shape : Option Direction) :
    List.Forall₂ (view.Types (memo.answer view.schema) options shape) (source.shown shape)
      (view.recordBy (memo.answer view.schema) options source shape).properties := by
  apply forall₂_recordBy
  · intro field
    exact types_of_default (Or.inl rfl) rfl
  · intro direction field
    exact types_propertyBy memo options direction field

/-- A record of a run is the shape of a message for an entry that asks for it: it has the name of
this shape, which belongs to the message from then on. -/
structure IsShape (view : Viewpoint) (before after : Session) (usage : Usage) (source : Message)
    (shape : Option Direction) (record : RecordType) : Prop where
  asked : usage.message = source.fullName
  directed : ∀ direction, shape = some direction → usage.isIn direction = true
  name : record.name = view.typeName before.options source shape
  owner : after.registry.owner? view.package record.name = some source.fullName

/-- Every record of a run is the shape of some message, as the answers of the session have it. -/
theorem exists_isShape {message : Message} {inRequest inResponse : Bool} {record : RecordType}
    (written : record ∈ (view.synthesizeGiven session message inRequest inResponse).1) :
    let after := (view.synthesizeGiven session message inRequest inResponse).2
    ∃ usage ∈ view.takenGiven session message inRequest inResponse, ∃ source shape,
      (source = message ∨ view.schema.message? usage.message = some source) ∧
        view.IsShape session after usage source shape record ∧
        record = view.recordBy (after.memo.answer view.schema) session.options source shape := by
  intro after
  obtain ⟨granted, accounts⟩ := view.exists_accounts session message inRequest inResponse
  rw [accounts.records] at written
  obtain ⟨demand, isGranted, rfl⟩ := List.mem_map.mp written
  have owner := accounts.owned demand isGranted
  obtain ⟨usage, isTaken, source, shape, known, asked, directed, rfl⟩ :=
    accounts.shapes demand isGranted
  have name := view.recordBy_name (after.memo.answer view.schema) session.options source shape
  exact ⟨usage, isTaken, source, shape, known, ⟨asked, directed, name, owner⟩, rfl⟩

theorem mem_synthesizeGiven_of_mem_writeGiven {message : Message} {inRequest inResponse : Bool}
    {record : RecordType}
    (written : record ∈
      (view.writeGiven session ⟨message.fullName, inRequest, inResponse⟩ message).records) :
    record ∈ (view.synthesizeGiven session message inRequest inResponse).1 :=
  List.mem_append_left _ written

/-- A folder whose parent is encoded as a string, although folders need separate shapes. -/
def linkedFolder : Message where
  declared := ⟨"disk", "Folder"⟩
  fields := [{ name := "parent", kind := .message "disk.Folder", stringEncoded := true },
    { name := "etag", kind := .scalar .string, behaviors := [.outputOnly] }]

def linkedView : Viewpoint where
  schema := .ofFiles [{ name := "disk.proto", package := "disk", messages := [linkedFolder] }]
  package := "disk"

/-- The folder in its shape for a direction. -/
def linkedRecord (direction : Direction) : RecordType :=
  linkedView.recordBy (fun _ => true) {} linkedFolder (some direction)

theorem askGiven_linkedFolder :
    ({} : Session).askGiven linkedView.schema linkedFolder =
      (true, { memo := ⟨[("disk.Folder", true)]⟩ }) := by
  have separate : linkedView.schema.discriminatesGiven linkedFolder = true := by
    rw [Schema.discriminatesGiven, List.any_cons]
    rfl
  simp only [Session.askGiven, Memo.askGiven, separate]
  rfl

/-- The folder is written in each direction in which it is used. -/
theorem linkedRecord_mem {inRequest inResponse : Bool} {direction : Direction}
    (used : Usage.isIn ⟨"disk.Folder", inRequest, inResponse⟩ direction = true) :
    linkedRecord direction ∈
      (linkedView.synthesizeGiven {} linkedFolder inRequest inResponse).1 := by
  apply mem_synthesizeGiven_of_mem_writeGiven
  cases direction with
  | request =>
    obtain rfl : inRequest = true := used
    simp only [writeGiven, askGiven_linkedFolder]
    cases inResponse <;> exact List.mem_cons_self
  | response =>
    obtain rfl : inResponse = true := used
    simp only [writeGiven, askGiven_linkedFolder]
    cases inRequest
    · exact List.mem_cons_self
    · exact List.mem_cons_of_mem _ List.mem_cons_self

theorem eq_linkedFolder_of_message? {name : String} {message : Message}
    (found : linkedView.schema.message? name = some message) : message = linkedFolder := by
  obtain ⟨file, isFile, inFile⟩ := Schema.mem_files_of_message? found
  obtain rfl := List.mem_singleton.mp isFile
  exact List.mem_singleton.mp inFile

theorem injective_typeName_linkedFolder :
    Function.Injective (linkedView.typeName {} linkedFolder) := by
  rintro (_ | _ | _) (_ | _ | _) <;> decide

/-- In every record that a run writes, the types are those that the fields have by default, with the
suffix of the direction where a field holds a message that needs separate shapes; except that a field
of this kind that is encoded as a string is not a string in the shape for a direction. -/
theorem records_type_fields (view : Viewpoint) (session : Session) (message : Message)
    (inRequest inResponse : Bool) :
    let run := view.synthesizeGiven session message inRequest inResponse
    let separate := run.2.memo.answer view.schema
    (∀ record ∈ run.1, ∃ usage ∈ view.takenGiven session message inRequest inResponse,
      ∃ source shape, (source = message ∨ view.schema.message? usage.message = some source) ∧
        view.IsShape session run.2 usage source shape record ∧
        List.Forall₂ (view.Types separate session.options shape) (source.shown shape)
          record.properties) ∧
    (view.schema.message? message.fullName = some message → session.memo.Sound view.schema →
      separate = view.schema.discriminates) := by
  intro run separate
  obtain ⟨granted, accounts⟩ := view.exists_accounts session message inRequest inResponse
  constructor
  · intro record written
    obtain ⟨usage, isTaken, source, shape, known, isShape, same⟩ := exists_isShape written
    refine ⟨usage, isTaken, source, shape, known, isShape, ?_⟩
    rw [same]
    exact view.types_recordBy _ _ source shape
  · intro found sound
    exact (accounts.answers found).trans sound.answer_eq

theorem records_type_fields_linkedFolder :
    ∃ property ∈ (linkedRecord .response).properties, property.name = "etag" ∧
      property.type = .named "string" := by
  obtain ⟨each, -⟩ := records_type_fields linkedView {} linkedFolder true true
  obtain ⟨usage, -, source, shape, known, isShape, types⟩ :=
    each (linkedRecord .response) (linkedRecord_mem rfl)
  obtain rfl : source = linkedFolder := known.elim id eq_linkedFolder_of_message?
  obtain rfl : some .response = shape := injective_typeName_linkedFolder isShape.name
  cases types with
  | cons _ others =>
    cases others with
    | cons etag _ =>
      refine ⟨_, List.mem_cons_of_mem _ List.mem_cons_self, rfl, etag.default (Or.inr ?_)⟩
      rintro ⟨fullName, target, ⟨⟩, -⟩

/-- The parent of the folder is encoded as a string, but its type in the shape for requests is this
shape itself. -/
theorem not_string_linkedFolder :
    ¬∀ record ∈ (linkedView.synthesizeGiven {} linkedFolder true false).1,
      ∀ field ∈ linkedFolder.fields, ∀ property ∈ record.properties,
        property.name = field.jsonName → field.stringEncoded = true →
        property.type = field.cardinality.wrap (.named "string") := by
  intro encoded
  have parent := encoded (linkedRecord .request) (linkedRecord_mem rfl) _ List.mem_cons_self _
    List.mem_cons_self rfl rfl
  revert parent
  decide

end Viewpoint

end HttpClientGen
