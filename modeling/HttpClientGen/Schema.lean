import HttpClientGen.Schema.Declaration

/-!
# Schemas

A schema is a list of files with two tables, one for messages and one for enumerations, that lead
from a full name to the place of the declaration. A later declaration hides an earlier one of the
same name, but a file is hidden by an earlier file. The tables always agree with the files, so that
a look-up never leads outside of them.
-/

namespace HttpClientGen

/-- The file and the position in the file where something is declared. -/
structure Place where
  file : Nat
  position : Nat
  deriving DecidableEq, Repr

/-- A table from full names to places. An entry hides the entries behind it. -/
abbrev PlaceTable := List (String × Place)

/-- The entries for one file, the last declaration first. -/
def placesIn (names : SchemaFile → List String) (file : SchemaFile) (index : Nat) : PlaceTable :=
  ((names file).mapIdx fun position name => (name, ⟨index, position⟩)).reverse

/-- The entries for all files, the last declaration of the last file first. The first of the files
has the given index. -/
def placesFrom (names : SchemaFile → List String) (index : Nat) : List SchemaFile → PlaceTable
  | [] => []
  | file :: files => placesFrom names (index + 1) files ++ placesIn names file index

theorem placesFrom_append (names : SchemaFile → List String) (index : Nat)
    (front back : List SchemaFile) :
    placesFrom names index (front ++ back) =
      placesFrom names (index + front.length) back ++ placesFrom names index front := by
  induction front generalizing index with
  | nil => simp [placesFrom]
  | cons file front ih =>
    simp [placesFrom, ih, Nat.add_assoc, Nat.add_comm 1]

/-- An entry of the table names what stands at its place. -/
theorem getElem?_of_mem_placesFrom {names : SchemaFile → List String} {index : Nat}
    {files : List SchemaFile} {name : String} {place : Place}
    (entry : (name, place) ∈ placesFrom names index files) :
    ∃ file, index ≤ place.file ∧ files[place.file - index]? = some file ∧
      (names file)[place.position]? = some name := by
  induction files generalizing index with
  | nil => simp [placesFrom] at entry
  | cons file files ih =>
    rcases List.mem_append.mp entry with later | here
    · obtain ⟨other, le, found, named⟩ := ih later
      refine ⟨other, by omega, ?_, named⟩
      rw [show place.file - index = (place.file - (index + 1)) + 1 by omega]
      simpa using found
    · obtain ⟨position, inRange, same⟩ := List.mem_mapIdx.mp (List.mem_reverse.mp here)
      obtain ⟨rfl, rfl⟩ := Prod.mk.inj same
      exact ⟨file, by simp, by simp, by simp [inRange]⟩

/-- What stands at the place of a name that is looked up has that name. -/
theorem getElem?_of_lookup_placesFrom {names : SchemaFile → List String}
    {files : List SchemaFile} {file : SchemaFile} {name : String} {place : Place}
    (entry : (placesFrom names 0 files).lookup name = some place)
    (inFiles : files[place.file]? = some file) : (names file)[place.position]? = some name := by
  obtain ⟨front, back, split, -⟩ := List.lookup_eq_some_iff.mp entry
  have member : (name, place) ∈ placesFrom names 0 files := by simp [split]
  obtain ⟨other, -, atPlace, named⟩ := getElem?_of_mem_placesFrom member
  simp only [Nat.sub_zero] at atPlace
  obtain rfl : file = other := Option.some.inj (inFiles.symm.trans atPlace)
  exact named

def SchemaFile.messageNames (file : SchemaFile) : List String :=
  file.messages.map Message.fullName

def SchemaFile.enumNames (file : SchemaFile) : List String :=
  file.enums.map Enumeration.fullName

/-- A list of files with tables of what they declare. -/
structure Schema where
  files : List SchemaFile := []
  messagePlaces : PlaceTable := []
  enumPlaces : PlaceTable := []
  messagePlaces_eq : messagePlaces = placesFrom SchemaFile.messageNames 0 files := by rfl
  enumPlaces_eq : enumPlaces = placesFrom SchemaFile.enumNames 0 files := by rfl

namespace Schema

def empty : Schema := {}

def addFile (schema : Schema) (file : SchemaFile) : Schema where
  files := schema.files ++ [file]
  messagePlaces := placesIn SchemaFile.messageNames file schema.files.length ++ schema.messagePlaces
  enumPlaces := placesIn SchemaFile.enumNames file schema.files.length ++ schema.enumPlaces
  messagePlaces_eq := by
    simp [placesFrom_append, placesFrom, schema.messagePlaces_eq]
  enumPlaces_eq := by
    simp [placesFrom_append, placesFrom, schema.enumPlaces_eq]

/-- The schema of some files, added one after the other. -/
def ofFiles (files : List SchemaFile) : Schema :=
  files.foldl addFile empty

/-- The first file with a name. -/
def file? (schema : Schema) (name : String) : Option SchemaFile :=
  schema.files.find? (·.name = name)

def message? (schema : Schema) (fullName : String) : Option Message := do
  let place ← schema.messagePlaces.lookup fullName
  let file ← schema.files[place.file]?
  file.messages[place.position]?

def enum? (schema : Schema) (fullName : String) : Option Enumeration := do
  let place ← schema.enumPlaces.lookup fullName
  let file ← schema.files[place.file]?
  file.enums[place.position]?

def messageNames (schema : Schema) : List String :=
  schema.messagePlaces.map (·.1)

/-- A message that is found by a name has that full name. -/
theorem fullName_of_message? {schema : Schema} {fullName : String} {message : Message}
    (found : schema.message? fullName = some message) : message.fullName = fullName := by
  unfold message? at found
  obtain ⟨place, entry, found⟩ := Option.bind_eq_some_iff.mp found
  obtain ⟨file, inFiles, found⟩ := Option.bind_eq_some_iff.mp found
  rw [schema.messagePlaces_eq] at entry
  have named := getElem?_of_lookup_placesFrom entry inFiles
  simpa [SchemaFile.messageNames, found] using named

/-- An enumeration that is found by a name has that full name. -/
theorem fullName_of_enum? {schema : Schema} {fullName : String} {enumeration : Enumeration}
    (found : schema.enum? fullName = some enumeration) : enumeration.fullName = fullName := by
  unfold enum? at found
  obtain ⟨place, entry, found⟩ := Option.bind_eq_some_iff.mp found
  obtain ⟨file, inFiles, found⟩ := Option.bind_eq_some_iff.mp found
  rw [schema.enumPlaces_eq] at entry
  have named := getElem?_of_lookup_placesFrom entry inFiles
  simpa [SchemaFile.enumNames, found] using named

theorem mem_messageNames_of_message? {schema : Schema} {fullName : String} {message : Message}
    (found : schema.message? fullName = some message) : fullName ∈ schema.messageNames := by
  unfold message? at found
  cases entry : schema.messagePlaces.lookup fullName with
  | none => simp [entry] at found
  | some place =>
    obtain ⟨front, back, split, -⟩ := List.lookup_eq_some_iff.mp entry
    simp [messageNames, split]

/-- The names of messages that are not in a list. A walk over messages ends because this list
becomes shorter with every message met. -/
def unmet (schema : Schema) (met : List String) : List String :=
  schema.messageNames.filter (· ∉ met)

theorem unmet_cons_lt {schema : Schema} {fullName : String} {met : List String} {message : Message}
    (found : schema.message? fullName = some message) (new : fullName ∉ met) :
    (schema.unmet (fullName :: met)).length < (schema.unmet met).length := by
  have member : fullName ∈ schema.unmet met := by
    simp [unmet, mem_messageNames_of_message? found, new]
  have filtered : schema.unmet (fullName :: met) =
      (schema.unmet met).filter (· ≠ fullName) := by
    simp [unmet, List.filter_filter]
  rw [filtered]
  exact List.length_filter_lt_length_iff_exists.mpr ⟨fullName, member, by simp⟩

theorem unmet_cons_lex (schema : Schema) (fullName : String) {met : List String} {m n : Nat}
    (shorter : m < n) :
    Prod.Lex (· < ·) (· < ·) ((schema.unmet (fullName :: met)).length, m)
      ((schema.unmet met).length, n) := by
  have le : (schema.unmet (fullName :: met)).length ≤ (schema.unmet met).length := by
    have filtered : schema.unmet (fullName :: met) =
        (schema.unmet met).filter (· ≠ fullName) := by
      simp [unmet, List.filter_filter]
    exact filtered ▸ List.length_filter_le _ _
  rcases Nat.lt_or_eq_of_le le with less | same
  · exact Prod.Lex.left _ _ less
  · exact same ▸ Prod.Lex.right _ shorter

end Schema

end HttpClientGen
