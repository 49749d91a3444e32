import HttpClientGen.Proofs.Descriptor.Load
import HttpClientGen.TypeExpr

/-!
# Maps and references of loaded fields

A list of messages becomes a map just if these messages describe the entries of a map. All that is
dropped on the way is these messages, so what else a field or a method refers to is found in the
schema.
-/

namespace HttpClientGen

/-- What a kind refers to is found in a schema. -/
def Schema.Resolves (schema : Schema) : FieldKind → Prop
  | .scalar _ => True
  | .enumeration fullName => (schema.enum? fullName).isSome
  | .message fullName => (schema.message? fullName).isSome

instance (schema : Schema) (kind : FieldKind) : Decidable (schema.Resolves kind) :=
  match kind with
  | .scalar _ => isTrue trivial
  | .enumeration fullName => inferInstanceAs (Decidable ((schema.enum? fullName).isSome = true))
  | .message fullName => inferInstanceAs (Decidable ((schema.message? fullName).isSome = true))

/-- The type of a field's element is that of something which exists: a built-in type, a well-known
one, or what a declaration of the schema is called. -/
inductive Viewpoint.Knows (view : Viewpoint) (field : Field) : TypeExpr → Prop
  | text (encoded : field.stringEncoded = true) : Knows view field (.named "string")
  | scalar (kind : ScalarKind) (isKind : field.kind = .scalar kind) :
      Knows view field (.named kind.typeName)
  | wellKnown (fullName : String) (type : WellKnown)
      (isKind : field.kind = .message fullName ∨ field.kind = .enumeration fullName)
      (known : WellKnown.ofFullName? fullName = some type) : Knows view field (.named type.aliasName)
  | message (fullName : String) (message : Message) (isKind : field.kind = .message fullName)
      (found : view.schema.message? fullName = some message) :
      Knows view field (.named (view.localName message.declared))
  | enumeration (fullName : String) (enumeration : Enumeration)
      (isKind : field.kind = .enumeration fullName)
      (found : view.schema.enum? fullName = some enumeration) :
      Knows view field (.named (view.localName enumeration.declared))

/-- If what the kind of a field refers to is found, the type does not stand in for a declaration
that is missing. -/
theorem Viewpoint.knows_elementType {view : Viewpoint} {field : Field}
    (resolves : view.schema.Resolves field.kind) : view.Knows field (view.elementType field) := by
  rw [elementType]
  split
  · next encoded => exact .text encoded
  · split
    · next kind isKind => exact .scalar kind isKind
    · next fullName isKind =>
      rw [isKind] at resolves
      obtain ⟨enumeration, found⟩ := Option.isSome_iff_exists.mp resolves
      rw [enumName]
      split
      · next type known => exact .wellKnown fullName type (.inr isKind) known
      · rw [found]
        exact .enumeration fullName enumeration isKind found
    · next fullName isKind =>
      rw [isKind] at resolves
      obtain ⟨message, found⟩ := Option.isSome_iff_exists.mp resolves
      rw [messageName]
      split
      · next type known => exact .wellKnown fullName type (.inl isKind) known
      · rw [found]
        exact .message fullName message isKind found

end HttpClientGen

namespace HttpClientGen.Descriptor

open Wire

section Dots

/-- A text does not start with a dot. -/
def IsUndotted (text : String) : Prop :=
  text.toList.head? ≠ some '.'

instance (text : String) : Decidable (IsUndotted text) :=
  inferInstanceAs (Decidable (_ ≠ _))

theorem IsProper.isUndotted {name : String} (proper : IsProper name) : IsUndotted name :=
  fun head => proper.2 (List.mem_of_mem_head? head)

theorem isUndotted_scopedName {scope name : String} (outer : IsUndotted scope)
    (inner : IsUndotted name) : IsUndotted (scopedName scope name) := by
  rw [scopedName]
  split
  · exact inner
  · next nonempty =>
    have some : scope.toList ≠ [] := by simpa using nonempty
    rwa [IsUndotted, String.toList_append, String.toList_append, List.append_assoc,
      List.head?_append_of_ne_nil _ some]

theorem isUndotted_foldl_scopedName {scope : String} (outer : IsUndotted scope)
    {path : List String} (proper : ∀ name ∈ path, IsProper name) :
    IsUndotted (path.foldl scopedName scope) := by
  induction path generalizing scope with
  | nil => exact outer
  | cons name path ih =>
    obtain ⟨here, later⟩ := List.forall_mem_cons.mp proper
    exact ih (isUndotted_scopedName outer here.isUndotted) later

/-- The dot in front of a reference is all that is taken off. -/
theorem withoutDots_of_isUndotted {name : String} (undotted : IsUndotted name) :
    withoutDots ("." ++ name) = name := by
  have kept : name.toList.dropWhile (· = '.') = name.toList := by
    rw [IsUndotted] at undotted
    cases toList : name.toList with
    | nil => rfl
    | cons c cs => exact List.dropWhile_cons_of_neg (by simpa [toList] using undotted)
  have dot : ("." : String).toList = ['.'] := rfl
  rw [withoutDots, String.toList_append, dot, List.singleton_append,
    List.dropWhile_cons_of_pos (by simp), kept, String.ofList_toList]

/-- All names of some files are proper, and no package starts with a dot. -/
def NamesAreReadable (files : List File) : Prop :=
  ∀ file ∈ files, file.NamesAreProper ∧ IsUndotted file.package

variable {files : List File}

theorem NamesAreReadable.isUndotted_fullName (readable : NamesAreReadable files) {file : File}
    (isFile : file ∈ files) {message : Scoped Message} (listed : message ∈ file.allMessages) :
    IsUndotted message.fullName := by
  obtain ⟨proper, package⟩ := readable file isFile
  rw [← file.map_inScope_places] at listed
  obtain ⟨placed, isPlace, rfl⟩ := List.mem_map.mp listed
  rw [placed.fullName_inScope]
  exact isUndotted_foldl_scopedName package (proper.path isPlace)

theorem NamesAreReadable.isUndotted (readable : NamesAreReadable files) {name : String}
    (listed : name ∈ messageNamesIn files ∨ name ∈ enumNamesIn files) : IsUndotted name := by
  rcases listed with isMessage | isEnum
  · obtain ⟨file, isFile, inFile⟩ := List.mem_flatMap.mp isMessage
    obtain ⟨message, listed, rfl⟩ := List.mem_map.mp inFile
    exact readable.isUndotted_fullName isFile listed
  · obtain ⟨file, isFile, inFile⟩ := List.mem_flatMap.mp isEnum
    obtain ⟨enumeration, listed, rfl⟩ := List.mem_map.mp inFile
    refine isUndotted_scopedName ?_ ((readable file isFile).1.2 _ listed).isUndotted
    rcases List.mem_append.mp listed with outside | inside
    · obtain ⟨_, -, rfl⟩ := List.mem_map.mp outside
      exact (readable file isFile).2
    · obtain ⟨message, isMessage, inMessage⟩ := List.mem_flatMap.mp inside
      obtain ⟨_, -, rfl⟩ := List.mem_map.mp inMessage
      exact readable.isUndotted_fullName isFile isMessage

end Dots

section Kinds

variable {files : List File} {field : Field}

/-- The kind of a field: a built-in type, or what its type name leads to in some files. A group counts
as a message whatever it leads to. -/
inductive Field.HasKind (files : List File) (field : Field) : Prop
  | scalar (scalar : ScalarKind) (type : field.type = .scalar scalar)
      (kind : field.kind = .scalar scalar)
  | message (name : String) (listed : name ∈ messageNamesIn files) (type : field.type = .message)
      (typeName : field.typeName = "." ++ name) (kind : field.kind = .message name)
  | enumeration (name : String) (listed : name ∈ enumNamesIn files)
      (type : field.type = .enumeration) (typeName : field.typeName = "." ++ name)
      (kind : field.kind = if field.isGroup then .message name else .enumeration name)

theorem NamesAreReadable.hasKind (readable : NamesAreReadable files)
    (resolved : field.IsResolved files) : field.HasKind files := by
  rw [Field.IsResolved] at resolved
  cases type : field.type with
  | scalar scalar => exact .scalar scalar type (by rw [Field.kind, type])
  | message =>
    rw [type] at resolved
    obtain ⟨name, listed, typeName⟩ := resolved
    refine .message name listed type typeName ?_
    rw [Field.kind, type, typeName, withoutDots_of_isUndotted (readable.isUndotted (.inl listed))]
  | enumeration =>
    rw [type] at resolved
    obtain ⟨name, listed, typeName⟩ := resolved
    refine .enumeration name listed type typeName ?_
    rw [Field.kind, type, typeName, withoutDots_of_isUndotted (readable.isUndotted (.inr listed))]
    cases field.isGroup <;> rfl

def messagesIn (files : List File) : List (Scoped Message) :=
  files.flatMap File.allMessages

def entriesIn (files : List File) : List (Scoped Message) :=
  (messagesIn files).filter (·.item.isMapEntry)

/-- The type of a field is a message. -/
def Field.RefersTo (field : Field) (message : Scoped Message) : Prop :=
  field.type = .message ∧ field.typeName = "." ++ message.fullName

instance (field : Field) (message : Scoped Message) : Decidable (field.RefersTo message) :=
  inferInstanceAs (Decidable (_ ∧ _))

def Message.valueField? (message : Message) : Option Field :=
  message.fields.find? (·.number = 2)

/-- A field is a list of entries of a map, and another field holds the values. -/
def Field.IsMapOf (files : List File) (field value : Field) : Prop :=
  field.repeated = true ∧
    ∃ entry ∈ entriesIn files, field.RefersTo entry ∧ entry.item.valueField? = some value

theorem Field.exists_isMapOf_iff :
    (∃ value, field.IsMapOf files value) ↔ field.repeated = true ∧
      ∃ entry ∈ entriesIn files, field.RefersTo entry ∧ entry.item.valueField?.isSome := by
  simp only [IsMapOf, Option.isSome_iff_exists]
  constructor
  · rintro ⟨value, repeated, entry, isEntry, refers, isValue⟩
    exact ⟨repeated, entry, isEntry, refers, value, isValue⟩
  · rintro ⟨repeated, entry, isEntry, refers, value, isValue⟩
    exact ⟨value, repeated, entry, isEntry, refers, isValue⟩

instance (files : List File) (field : Field) : Decidable (∃ value, field.IsMapOf files value) :=
  decidable_of_iff _ Field.exists_isMapOf_iff.symm

theorem map_fullName_messagesIn (files : List File) :
    (messagesIn files).map (·.fullName) = messageNamesIn files :=
  List.map_flatMap

theorem lookup_mapValues_eq_some_iff (distinct : (messageNamesIn files).Nodup) {name : String}
    {kind : FieldKind} :
    (mapValues files).lookup name = some kind ↔
      ∃ entry ∈ entriesIn files, entry.fullName = name ∧
        ∃ value, entry.item.valueField? = some value ∧ value.kind = kind := by
  have values : mapValues files = ((entriesIn files).filterMap fun entry =>
      entry.item.valueField?.map fun value => (entry.fullName, value.kind)).reverse := by
    rw [entriesIn, List.filterMap_filter]
    rfl
  have entries : (entriesIn files).Pairwise fun first second =>
      first.fullName ≠ second.fullName := by
    rw [← map_fullName_messagesIn, List.Nodup, List.pairwise_map] at distinct
    exact distinct.filter _
  have keys : ((mapValues files).map (·.1)).Nodup := by
    rw [values, List.map_reverse, List.nodup_reverse, List.Nodup, List.pairwise_map]
    refine entries.filterMap _ fun first second differ x isFirst y isSecond => ?_
    obtain ⟨_, -, rfl⟩ := Option.map_eq_some_iff.mp isFirst
    obtain ⟨_, -, rfl⟩ := Option.map_eq_some_iff.mp isSecond
    exact differ
  rw [lookup_eq_some_iff_of_distinct keys, values, List.mem_reverse, List.mem_filterMap]
  simp only [Option.map_eq_some_iff, Prod.mk.injEq]
  constructor
  · rintro ⟨entry, listed, value, found, rfl, rfl⟩
    exact ⟨entry, listed, rfl, value, found, rfl⟩
  · rintro ⟨entry, listed, rfl, value, found, rfl⟩
    exact ⟨entry, listed, value, found, rfl, rfl⟩

/-- The table of values is asked for just those fields that are maps. -/
theorem Field.HasKind.lookup_mapValues_iff (names : NamesAreDistinct files)
    (hasKind : field.HasKind files) {kind : FieldKind} :
    field.repeated = true ∧ field.kind.message?.bind ((mapValues files).lookup ·) = some kind ↔
      ∃ value, field.IsMapOf files value ∧ value.kind = kind := by
  have ofMessage {name : String} (isKind : field.kind = .message name) :
      field.kind.message?.bind ((mapValues files).lookup ·) = some kind ↔
        ∃ entry ∈ entriesIn files, entry.fullName = name ∧
          ∃ value, entry.item.valueField? = some value ∧ value.kind = kind := by
    rw [isKind, FieldKind.message?, Option.bind_some, lookup_mapValues_eq_some_iff names.messages]
  constructor
  · rintro ⟨repeated, found⟩
    cases hasKind with
    | scalar scalar type isKind => simp [isKind, FieldKind.message?] at found
    | message name listed type typeName isKind =>
      obtain ⟨entry, isEntry, rfl, value, isValue, same⟩ := (ofMessage isKind).mp found
      exact ⟨value, ⟨repeated, entry, isEntry, ⟨type, typeName⟩, isValue⟩, same⟩
    | enumeration name listed type typeName isKind =>
      split at isKind
      · obtain ⟨entry, isEntry, rfl, -⟩ := (ofMessage isKind).mp found
        have isMessage : entry.fullName ∈ messageNamesIn files := by
          rw [← map_fullName_messagesIn]
          exact List.mem_map_of_mem (List.mem_of_mem_filter isEntry)
        exact absurd listed (names.apart _ isMessage)
      · simp [isKind, FieldKind.message?] at found
  · rintro ⟨value, ⟨repeated, entry, isEntry, ⟨isMessage, refers⟩, isValue⟩, same⟩
    cases hasKind with
    | scalar scalar type isKind => simp [type] at isMessage
    | message name listed type typeName isKind =>
      have named : entry.fullName = name := by simpa [typeName] using refers.symm
      exact ⟨repeated, (ofMessage isKind).mpr ⟨entry, isEntry, named, value, isValue, same⟩⟩
    | enumeration name listed type typeName isKind => simp [type] at isMessage

end Kinds

section Fields

variable {around : Surroundings} {files : List File} {field : Field}

/-- How a field is loaded: as a map of values of a kind, or as what it is. -/
structure LoadsField (files : List File) (field : Field) (loaded : HttpClientGen.Field) :
    Prop where
  isMap : loaded.cardinality = .map ↔ ∃ value, field.IsMapOf files value
  values : ∀ value, field.IsMapOf files value → loaded.kind = value.kind
  plain : loaded.cardinality ≠ .map →
    (loaded.cardinality = .repeated ↔ field.repeated = true) ∧ loaded.kind = field.kind

/-- A field becomes a map if its kind is in the table of values, and stays what it is otherwise. -/
theorem Surroundings.field_spec (around : Surroundings) (message : String) (oneofs : List Oneof)
    (field : Field) :
    (∃ kind, (field.repeated = true ∧
        field.kind.message?.bind (around.mapValues.lookup ·) = some kind) ∧
      (around.field message oneofs field).cardinality = .map ∧
      (around.field message oneofs field).kind = kind) ∨
    ((∀ kind, ¬(field.repeated = true ∧
        field.kind.message?.bind (around.mapValues.lookup ·) = some kind)) ∧
      (around.field message oneofs field).cardinality =
        (if field.repeated then .repeated else .singular) ∧
      (around.field message oneofs field).kind = field.kind) := by
  rw [Surroundings.field]
  split
  · next kind found repeated => exact .inl ⟨kind, ⟨repeated, found⟩, rfl, rfl⟩
  · next other => exact .inr ⟨fun kind both => other kind both.2 both.1, rfl, rfl⟩

theorem loadsField_field (names : NamesAreDistinct files) (hasKind : field.HasKind files)
    (table : around.mapValues = mapValues files) (message : String) (oneofs : List Oneof) :
    LoadsField files field (around.field message oneofs field) := by
  have spec := around.field_spec message oneofs field
  simp only [table, hasKind.lookup_mapValues_iff names] at spec
  rcases spec with ⟨kind, ⟨value, isMap, same⟩, cardinality, ofKind⟩ | ⟨plain, cardinality, ofKind⟩
  · refine ⟨iff_of_true cardinality ⟨value, isMap⟩, fun other alsoMap => ?_, fun unlike => ?_⟩
    · obtain ⟨-, found⟩ := (hasKind.lookup_mapValues_iff names).mpr ⟨value, isMap, same⟩
      obtain ⟨-, also⟩ := (hasKind.lookup_mapValues_iff names).mpr ⟨other, alsoMap, rfl⟩
      rw [ofKind, ← Option.some.inj (also.symm.trans found)]
    · exact absurd cardinality unlike
  · have notMap : ¬∃ value, field.IsMapOf files value := by
      rintro ⟨value, isMap⟩
      exact plain _ ⟨value, isMap, rfl⟩
    refine ⟨iff_of_false ?_ notMap, fun value isMap => absurd ⟨value, isMap⟩ notMap, fun _ => ?_⟩
    · rw [cardinality]
      split <;> exact nofun
    · refine ⟨?_, ofKind⟩
      rw [cardinality]
      cases field.repeated <;> simp

end Fields

section Kept

/-- The messages that describe entries are as they come from a schema: only lists refer to them, they
hold values, and nothing is declared in them. -/
def EntriesAreRegular (files : List File) : Prop :=
  ∀ entry ∈ entriesIn files,
    (∀ message ∈ messagesIn files, ∀ field ∈ message.item.fields,
      field.RefersTo entry → field.repeated = true) ∧
    (∀ file ∈ files, ∀ service ∈ file.services, ∀ method ∈ service.methods,
      method.input ≠ "." ++ entry.fullName ∧ method.output ≠ "." ++ entry.fullName) ∧
    (∃ value ∈ entry.item.fields, value.number = 2) ∧
    entry.item.nested = [] ∧ entry.item.enums = []

instance (files : List File) : Decidable (EntriesAreRegular files) :=
  inferInstanceAs (Decidable (∀ _ ∈ _, _))

variable {files : List File} {file : File}

theorem mem_entriesIn (isFile : file ∈ files) {message : Scoped Message}
    (listed : message ∈ file.allMessages) (isEntry : message.item.isMapEntry = true) :
    message ∈ entriesIn files :=
  List.mem_filter.mpr ⟨List.mem_flatMap.mpr ⟨file, isFile, listed⟩, isEntry⟩

/-- A message is kept if it does not describe entries itself. -/
theorem EntriesAreRegular.mem_kept (regular : EntriesAreRegular files) (isFile : file ∈ files)
    {placed : Placed} (listed : placed ∈ file.places)
    (plain : placed.message.isMapEntry = false) : placed ∈ file.kept := by
  refine List.mem_filter.mpr ⟨listed, List.all_eq_true.mpr fun above onWay => ?_⟩
  by_contra isEntry
  rw [Bool.not_eq_true, Bool.not_eq_false'] at isEntry
  rcases List.mem_append.mp onWay with around | own
  · obtain ⟨place, isPlace, rfl⟩ := File.exists_place_of_mem listed onWay
    obtain ⟨-, -, -, empty, -⟩ :=
      regular _ (mem_entriesIn isFile (File.inScope_mem_allMessages isPlace) isEntry)
    rw [File.places, placesAll_eq_flatMap] at listed
    obtain ⟨message, -, listed⟩ := List.mem_flatMap.mp listed
    have nonempty := (Message.nested_ne_nil_of_mem_around listed around).resolve_left
      List.not_mem_nil
    exact nonempty empty
  · rw [List.mem_singleton.mp own, plain] at isEntry
    cases isEntry

/-- The messages that are dropped are those that describe entries. -/
theorem EntriesAreRegular.mem_keptNamesIn (regular : EntriesAreRegular files)
    (readable : NamesAreReadable files) {name : String} (listed : name ∈ messageNamesIn files)
    (plain : ∀ entry ∈ entriesIn files, entry.fullName ≠ name) : name ∈ keptNamesIn files := by
  obtain ⟨file, isFile, inFile⟩ := List.mem_flatMap.mp listed
  rw [← (readable file isFile).1.map_fullName] at inFile
  obtain ⟨placed, isPlace, rfl⟩ := List.mem_map.mp inFile
  refine List.mem_flatMap.mpr ⟨file, isFile, List.mem_map.mpr ⟨placed, ?_, rfl⟩⟩
  refine regular.mem_kept isFile isPlace (Bool.eq_false_iff.mpr fun isEntry => ?_)
  have isEntry := mem_entriesIn isFile (File.inScope_mem_allMessages isPlace) isEntry
  exact plain _ isEntry ((readable file isFile).1.fullName isPlace)

/-- No enumeration is dropped. -/
theorem EntriesAreRegular.mem_keptEnumNamesIn (regular : EntriesAreRegular files)
    (readable : NamesAreReadable files) {name : String} (listed : name ∈ enumNamesIn files) :
    name ∈ keptEnumNamesIn files := by
  obtain ⟨file, isFile, inFile⟩ := List.mem_flatMap.mp listed
  obtain ⟨enumeration, isEnum, rfl⟩ := List.mem_map.mp inFile
  have kept {path : List String} (isKept : (path, enumeration.item) ∈ file.keptEnums)
      (scope : path.foldl scopedName file.package = enumeration.scope) :
      enumeration.enumName ∈ keptEnumNamesIn files := by
    refine List.mem_flatMap.mpr ⟨file, isFile, List.mem_map.mpr ⟨_, isKept, ?_⟩⟩
    rw [(readable file isFile).1.enumName isKept, scope, Scoped.enumName]
  rcases List.mem_append.mp isEnum with outside | inside
  · obtain ⟨own, isOwn, rfl⟩ := List.mem_map.mp outside
    exact kept (List.mem_append_left _ (List.mem_map_of_mem isOwn)) rfl
  · obtain ⟨message, isMessage, inMessage⟩ := List.mem_flatMap.mp inside
    obtain ⟨own, isOwn, rfl⟩ := List.mem_map.mp inMessage
    have listed := isMessage
    rw [← file.map_inScope_places] at listed
    obtain ⟨placed, isPlace, rfl⟩ := List.mem_map.mp listed
    have plain : placed.message.isMapEntry = false := by
      refine Bool.eq_false_iff.mpr fun isEntry => ?_
      obtain ⟨-, -, -, -, none⟩ := regular _ (mem_entriesIn isFile isMessage isEntry)
      exact List.ne_nil_of_mem isOwn none
    have isKept := regular.mem_kept isFile isPlace plain
    refine kept (List.mem_append_right _ (List.mem_flatMap.mpr ⟨placed, isKept, ?_⟩))
      (placed.fullName_inScope _).symm
    exact List.mem_map_of_mem isOwn

end Kept

section References

variable {descriptors : List Bytes} {around : Surroundings} {schema : Schema}

/-- Each field of each message that is kept is loaded. -/
theorem forall₂_loadsField (pool : readFiles? descriptors = some around)
    (readable : NamesAreReadable around.files) (loaded : loadSchema descriptors = .ok schema) :
    List.Forall₂ (fun file made => List.Forall₂ (fun placed message =>
        List.Forall₂ (LoadsField around.files) placed.message.fields message.fields)
      file.kept made.messages) around.files schema.files := by
  have isPool := isPool_of_readFiles? pool
  have table : around.mapValues = mapValues around.files := by
    obtain ⟨_, -, read⟩ := Option.bind_eq_some_iff.mp pool
    obtain ⟨_, -, read⟩ := Option.bind_eq_some_iff.mp read
    obtain ⟨_, -, read⟩ := Option.bind_eq_some_iff.mp read
    obtain ⟨_, -, same⟩ := Option.bind_eq_some_iff.mp read
    obtain rfl := Option.some.inj same
    rfl
  refine forall₂_imp_of_mem (forall₂_of_loadSchema pool loaded) fun file isFile made makes => ?_
  refine forall₂_imp_of_mem makes.messages fun placed isKept message makes => ?_
  refine forall₂_imp_of_mem makes.fields ?_
  rintro field isField _ ⟨comments, rfl⟩
  have isMessage := File.inScope_mem_allMessages (List.mem_of_mem_filter isKept)
  have resolved := (isPool.resolved file isFile).fields _ isMessage field isField
  obtain ⟨isMap, values, plain⟩ := loadsField_field isPool.names (readable.hasKind resolved) table
    message.fullName placed.message.oneofs
  exact ⟨isMap, values, plain⟩

theorem IsPool.isResolved {files : List File} (isPool : IsPool files) {message : Scoped Message}
    (isMessage : message ∈ messagesIn files) {field : Field}
    (isField : field ∈ message.item.fields) : field.IsResolved files := by
  obtain ⟨file, isFile, inFile⟩ := List.mem_flatMap.mp isMessage
  exact (isPool.resolved file isFile).fields message inFile field isField

/-- No field is a group whose type is an enumeration. -/
def GroupsAreMessages (files : List File) : Prop :=
  ∀ message ∈ messagesIn files, ∀ field ∈ message.item.fields,
    field.isGroup = true → field.type ≠ .enumeration

instance (files : List File) : Decidable (GroupsAreMessages files) :=
  inferInstanceAs (Decidable (∀ _ ∈ _, _))

/-- The values of maps do not describe entries of maps themselves. -/
def ValuesAreNoEntries (files : List File) : Prop :=
  ∀ entry ∈ entriesIn files, ∀ value ∈ entry.item.valueField?, ∀ other ∈ entriesIn files,
    ¬value.RefersTo other

instance (files : List File) : Decidable (ValuesAreNoEntries files) :=
  inferInstanceAs (Decidable (∀ _ ∈ _, _))

/-- A schema finds all that is kept of some files. -/
structure FindsKept (files : List File) (schema : Schema) : Prop where
  messages : ∀ name ∈ keptNamesIn files, (schema.message? name).isSome
  enums : ∀ name ∈ keptEnumNamesIn files, (schema.enum? name).isSome

section Found

variable {files : List File} {field : Field}

theorem FindsKept.resolves_kind (finds : FindsKept files schema)
    (readable : NamesAreReadable files) (regular : EntriesAreRegular files)
    (resolved : field.IsResolved files) (noGroup : field.isGroup = true → field.type ≠ .enumeration)
    (noEntry : ∀ entry ∈ entriesIn files, ¬field.RefersTo entry) : schema.Resolves field.kind := by
  cases readable.hasKind resolved with
  | scalar scalar type kind =>
    rw [kind]
    trivial
  | message name listed type typeName kind =>
    rw [kind]
    refine finds.messages name (regular.mem_keptNamesIn readable listed ?_)
    rintro entry isEntry rfl
    exact noEntry entry isEntry ⟨type, typeName⟩
  | enumeration name listed type typeName kind =>
    rw [kind, if_neg fun isGroup => noGroup isGroup type]
    exact finds.enums name (regular.mem_keptEnumNamesIn readable listed)

/-- What a loaded field refers to is found: the type of the values if it is a map, and its own type
otherwise. -/
theorem FindsKept.resolves_loaded (finds : FindsKept files schema) (isPool : IsPool files)
    (readable : NamesAreReadable files) (regular : EntriesAreRegular files)
    (groups : GroupsAreMessages files) (values : ValuesAreNoEntries files)
    {message : Scoped Message} (isMessage : message ∈ messagesIn files)
    (isField : field ∈ message.item.fields) {loaded : HttpClientGen.Field}
    (loads : LoadsField files field loaded) : schema.Resolves loaded.kind := by
  by_cases isMap : loaded.cardinality = .map
  · obtain ⟨value, isMapOf⟩ := loads.isMap.mp isMap
    rw [loads.values value isMapOf]
    obtain ⟨-, entry, isEntry, -, isValue⟩ := isMapOf
    have inEntry := List.mem_of_find?_eq_some isValue
    have isMessage := List.mem_of_mem_filter isEntry
    exact finds.resolves_kind readable regular (isPool.isResolved isMessage inEntry)
      (groups entry isMessage value inEntry) (values entry isEntry value isValue)
  · rw [(loads.plain isMap).2]
    -- a list of entries would have become a map
    refine finds.resolves_kind readable regular (isPool.isResolved isMessage isField)
      (groups message isMessage field isField) fun entry isEntry refers => isMap ?_
    obtain ⟨repeated, -, ⟨value, inEntry, isSecond⟩, -⟩ := regular entry isEntry
    refine loads.isMap.mpr (Field.exists_isMapOf_iff.mpr ⟨?_, entry, isEntry, refers, ?_⟩)
    · exact repeated message isMessage field isField refers
    · exact List.find?_isSome.mpr ⟨value, inEntry, by simpa using isSecond⟩

/-- A reference of a method is found. -/
theorem FindsKept.isSome_withoutDots (finds : FindsKept files schema)
    (readable : NamesAreReadable files) (regular : EntriesAreRegular files) {reference : String}
    (resolved : ∃ name ∈ messageNamesIn files, reference = "." ++ name)
    (noEntry : ∀ entry ∈ entriesIn files, reference ≠ "." ++ entry.fullName) :
    (schema.message? (withoutDots reference)).isSome := by
  obtain ⟨name, listed, rfl⟩ := resolved
  rw [withoutDots_of_isUndotted (readable.isUndotted (.inl listed))]
  refine finds.messages name (regular.mem_keptNamesIn readable listed ?_)
  rintro entry isEntry rfl
  exact noEntry entry isEntry rfl

/-- What a loaded method refers to is found. -/
theorem FindsKept.isSome_references (finds : FindsKept files schema)
    (readable : NamesAreReadable files) (regular : EntriesAreRegular files) {file : File}
    (isFile : file ∈ files) (resolved : file.IsResolved files) {service : Service}
    (isService : service ∈ file.services) {method : Method} (isMethod : method ∈ service.methods)
    {made : HttpClientGen.Method} (makes : MakesMethod method made) :
    (schema.message? made.input).isSome ∧ (schema.message? made.output).isSome := by
  obtain ⟨_, _, rfl⟩ := makes
  obtain ⟨input, output⟩ := resolved.methods service isService method isMethod
  have noEntry (entry : Scoped Message) (isEntry : entry ∈ entriesIn files) :=
    (regular entry isEntry).2.1 file isFile service isService method isMethod
  constructor
  · exact finds.isSome_withoutDots readable regular input fun entry isEntry =>
      (noEntry entry isEntry).1
  · exact finds.isSome_withoutDots readable regular output fun entry isEntry =>
      (noEntry entry isEntry).2

end Found

theorem findsKept_of_loadSchema (pool : readFiles? descriptors = some around)
    (proper : ∀ file ∈ around.files, file.NamesAreProper)
    (loaded : loadSchema descriptors = .ok schema) : FindsKept around.files schema := by
  obtain ⟨messages, enums⟩ := names_eq_of_loadsFile <|
    forall₂_imp_of_mem (forall₂_of_loadSchema pool loaded) fun file isFile _ makes =>
      makes.loadsFile (proper file isFile)
  constructor
  · intro name kept
    rwa [Schema.isSome_message?_iff, messages]
  · intro name kept
    rwa [Schema.isSome_enum?_iff, enums]

/-- The kind of a field is what its type name leads to. A field becomes a map if and only if it is a
list of messages that describe the entries of a map, with a value in them, and no reference that is
loaded leads nowhere. -/
theorem loads_maps_and_references (pool : readFiles? descriptors = some around)
    (readable : NamesAreReadable around.files) (loaded : loadSchema descriptors = .ok schema) :
    (∀ message ∈ messagesIn around.files, ∀ field ∈ message.item.fields,
      field.HasKind around.files) ∧
    List.Forall₂ (fun file made => List.Forall₂ (fun placed message =>
        List.Forall₂ (LoadsField around.files) placed.message.fields message.fields)
      file.kept made.messages) around.files schema.files ∧
    (EntriesAreRegular around.files → GroupsAreMessages around.files →
      ValuesAreNoEntries around.files →
      (∀ file ∈ schema.files, ∀ message ∈ file.messages, ∀ field ∈ message.fields,
        schema.Resolves field.kind ∧ ∀ package,
          Viewpoint.Knows ⟨schema, package⟩ field (Viewpoint.elementType ⟨schema, package⟩ field)) ∧
      ∀ file ∈ schema.files, ∀ service ∈ file.services, ∀ method ∈ service.methods,
        (schema.message? method.input).isSome ∧ (schema.message? method.output).isSome) := by
  have isPool := isPool_of_readFiles? pool
  have finds := findsKept_of_loadSchema pool (fun file isFile => (readable file isFile).1) loaded
  have fields := forall₂_loadsField pool readable loaded
  refine ⟨fun message isMessage field isField =>
    readable.hasKind (isPool.isResolved isMessage isField), fields, ?_⟩
  refine fun regular groups values => ⟨?_, ?_⟩
  · intro made isFile message isMessage field isField
    obtain ⟨file, wasFile, loads⟩ := exists_of_mem_right fields isFile
    obtain ⟨placed, isKept, loads⟩ := exists_of_mem_right loads isMessage
    obtain ⟨original, wasField, loads⟩ := exists_of_mem_right loads isField
    have inFile := File.inScope_mem_allMessages (List.mem_of_mem_filter isKept)
    have resolves := finds.resolves_loaded isPool readable regular groups values
      (List.mem_flatMap.mpr ⟨file, wasFile, inFile⟩) wasField loads
    exact ⟨resolves, fun package => Viewpoint.knows_elementType resolves⟩
  · intro made isFile service isService method isMethod
    obtain ⟨file, wasFile, makes⟩ := exists_of_mem_right (forall₂_of_loadSchema pool loaded) isFile
    obtain ⟨original, wasService, location, done⟩ := exists_of_mem_right makes.services isService
    obtain ⟨source, wasMethod, makes⟩ :=
      exists_of_mem_right (Surroundings.makes_of_service? done).2 isMethod
    exact finds.isSome_references readable regular wasFile (isPool.resolved file wasFile) wasService
      wasMethod makes

theorem references_libraryFile :
    ∃ around schema, readFiles? [libraryFile] = some around ∧ NamesAreReadable around.files ∧
      loadSchema [libraryFile] = .ok schema ∧ EntriesAreRegular around.files ∧
      GroupsAreMessages around.files ∧ ValuesAreNoEntries around.files ∧
      (∀ file ∈ schema.files, ∀ message ∈ file.messages, ∀ field ∈ message.fields,
        schema.Resolves field.kind) ∧
      ∀ file ∈ schema.files, ∀ service ∈ file.services, ∀ method ∈ service.methods,
        (schema.message? method.input).isSome ∧ (schema.message? method.output).isSome := by
  have correct : (readFiles? [libraryFile]).isSome ∧ (loadSchema [libraryFile]).toOption.isSome := by
    decide +kernel
  have facts : ∀ around ∈ readFiles? [libraryFile],
      (∀ file ∈ around.files, file.NamesAreProper ∧ IsUndotted file.package) ∧
      EntriesAreRegular around.files ∧ GroupsAreMessages around.files ∧
      ValuesAreNoEntries around.files := by decide +kernel
  obtain ⟨around, pool⟩ := Option.isSome_iff_exists.mp correct.1
  obtain ⟨schema, loaded⟩ := Option.isSome_iff_exists.mp correct.2
  rw [toOption_eq_some_iff] at loaded
  obtain ⟨readable, regular, groups, values⟩ := facts around pool
  obtain ⟨-, -, resolves⟩ := loads_maps_and_references pool readable loaded
  obtain ⟨fields, methods⟩ := resolves regular groups values
  exact ⟨around, schema, pool, readable, loaded, regular, groups, values,
    fun file isFile message isMessage field isField =>
      (fields file isFile message isMessage field isField).1, methods⟩

/-- The descriptor of a file with a group whose type is an enumeration. -/
def groupFile : Bytes :=
  putText 1 "library.proto" ++ putText 2 "library" ++
    putBytes 4 (putText 1 "Shelf" ++ putBytes 2 (describedField "kind" 1 1 10 ".library.Kind")) ++
    putBytes 5 (putText 1 "Kind" ++ putBytes 2 (putText 1 "NOVEL" ++ putNumber 2 0))

/-- The descriptor of a file with a map whose values are entries of a map. -/
def nestedMapFile : Bytes :=
  putText 1 "library.proto" ++ putText 2 "library" ++
    putBytes 4 (putText 1 "Shelf" ++
      putBytes 2 (describedField "books" 1 3 11 ".library.Shelf.BooksEntry") ++
      putBytes 3 (describedEntry "BooksEntry"
        (describedField "value" 2 3 11 ".library.Shelf.TitlesEntry")) ++
      putBytes 3 (describedEntry "TitlesEntry" (putText 1 "value" ++ putNumber 3 2 ++ putNumber 5 9)))

/-- The descriptor of a file with a map, in a package that starts with a dot. -/
def dottedFile : Bytes :=
  putText 1 "library.proto" ++ putText 2 ".library" ++
    putBytes 4 (putText 1 "Shelf" ++
      putBytes 2 (describedField "titles" 1 3 11 "..library.Shelf.TitlesEntry") ++
      putBytes 3 (describedEntry "TitlesEntry" (putText 1 "value" ++ putNumber 3 2 ++ putNumber 5 9)))

/-- Descriptors with proper names and regular entries are loaded with a reference that leads
nowhere. -/
def LosesReference (descriptors : List Bytes) : Prop :=
  ∃ around schema, readFiles? descriptors = some around ∧
    (∀ file ∈ around.files, file.NamesAreProper) ∧ EntriesAreRegular around.files ∧
    loadSchema descriptors = .ok schema ∧
    ∃ file ∈ schema.files, ∃ message ∈ file.messages, ∃ field ∈ message.fields,
      ¬schema.Resolves field.kind

/-- Descriptors with proper names are loaded with a map that is not taken for one. -/
def LosesMap (descriptors : List Bytes) : Prop :=
  ∃ around schema, readFiles? descriptors = some around ∧
    (∀ file ∈ around.files, file.NamesAreProper) ∧ loadSchema descriptors = .ok schema ∧
    (∃ file ∈ around.files, ∃ placed ∈ file.kept, ∃ field ∈ placed.message.fields,
      ∃ value, field.IsMapOf around.files value) ∧
    ∀ file ∈ schema.files, ∀ message ∈ file.messages, ∀ field ∈ message.fields,
      field.cardinality ≠ .map

theorem losesReference {descriptors : List Bytes}
    (pool : (readFiles? descriptors).any fun around =>
      (∀ file ∈ around.files, file.NamesAreProper) ∧ EntriesAreRegular around.files)
    (loaded : (loadSchema descriptors).toOption.any fun schema =>
      ∃ file ∈ schema.files, ∃ message ∈ file.messages, ∃ field ∈ message.fields,
        ¬schema.Resolves field.kind) : LosesReference descriptors := by
  obtain ⟨around, pool, facts⟩ := (Option.any_eq_true _ _).mp pool
  obtain ⟨schema, loaded, lost⟩ := (Option.any_eq_true _ _).mp loaded
  obtain ⟨proper, regular⟩ := of_decide_eq_true facts
  exact ⟨around, schema, pool, proper, regular, toOption_eq_some_iff.mp loaded,
    of_decide_eq_true lost⟩

/-- References are lost if a group is an enumeration, or if the values of a map are entries of a map;
and a map is not taken for one if its package starts with a dot. -/
theorem not_loads_maps_and_references :
    LosesReference [groupFile] ∧ LosesReference [nestedMapFile] ∧ LosesMap [dottedFile] := by
  refine ⟨losesReference (by decide +kernel) (by decide +kernel),
    losesReference (by decide +kernel) (by decide +kernel), ?_⟩
  have pool : (readFiles? [dottedFile]).any fun around =>
      (∀ file ∈ around.files, file.NamesAreProper) ∧
      ∃ file ∈ around.files, ∃ placed ∈ file.kept, ∃ field ∈ placed.message.fields,
        ∃ value, field.IsMapOf around.files value := by decide +kernel
  have loaded : (loadSchema [dottedFile]).toOption.any fun schema =>
      ∀ file ∈ schema.files, ∀ message ∈ file.messages, ∀ field ∈ message.fields,
        field.cardinality ≠ .map := by decide +kernel
  obtain ⟨around, pool, facts⟩ := (Option.any_eq_true _ _).mp pool
  obtain ⟨schema, loaded, plain⟩ := (Option.any_eq_true _ _).mp loaded
  obtain ⟨proper, isMap⟩ := of_decide_eq_true facts
  exact ⟨around, schema, pool, proper, toOption_eq_some_iff.mp loaded, isMap,
    of_decide_eq_true plain⟩

end References

end HttpClientGen.Descriptor
