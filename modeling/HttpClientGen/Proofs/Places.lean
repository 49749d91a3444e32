import HttpClientGen.Proofs.Lookup

/-!
# Where declarations stand

The tables of a schema grow file by file. Each entry leads to a declaration with its name, so no
look-up goes astray, and the entry that a name leads to is the one for the last declaration with it.
Files have no table: a name stands for the first file that has it.
-/

namespace HttpClientGen

/-- The place is the other one or comes in front of it, in the order of the files and in the order
of what is declared in a file. -/
def Place.NotBehind (place other : Place) : Prop :=
  place.file < other.file ∨ place.file = other.file ∧ place.position ≤ other.position

variable {α : Type} {items : SchemaFile → List α} {key : α → String} {files : List SchemaFile}
  {table : PlaceTable} {place : Place} {name : String} {x : α}

/-- Something is declared at a place of some files. -/
def DeclaredAt (items : SchemaFile → List α) (files : List SchemaFile) (place : Place) (x : α) :
    Prop :=
  ∃ file, files[place.file]? = some file ∧ (items file)[place.position]? = some x

/-- All entries of a table are places of declarations with their names, and every declaration has an
entry that is found and does not stand in front of it. -/
structure Indexes (items : SchemaFile → List α) (key : α → String) (files : List SchemaFile)
    (table : PlaceTable) : Prop where
  stored : ∀ name place, (name, place) ∈ table → ∃ x, DeclaredAt items files place x ∧ key x = name
  latest : ∀ place x, DeclaredAt items files place x →
    ∃ last, table.lookup (key x) = some last ∧ place.NotBehind last

theorem DeclaredAt.inRange (declared : DeclaredAt items files place x) :
    place.file < files.length := by
  obtain ⟨file, inFiles, -⟩ := declared
  exact (List.getElem?_eq_some_iff.mp inFiles).1

theorem DeclaredAt.of_shorter (declared : DeclaredAt items files place x) (file : SchemaFile) :
    DeclaredAt items (files ++ [file]) place x := by
  have inRange := declared.inRange
  obtain ⟨holder, inFiles, atPosition⟩ := declared
  refine ⟨holder, ?_, atPosition⟩
  rw [List.getElem?_append_left inRange]
  exact inFiles

/-- What is declared when a file is added was declared before, or is declared in this file. -/
theorem DeclaredAt.of_longer {file : SchemaFile}
    (declared : DeclaredAt items (files ++ [file]) place x) :
    DeclaredAt items files place x ∨
      place.file = files.length ∧ (items file)[place.position]? = some x := by
  obtain ⟨holder, inFiles, atPosition⟩ := declared
  by_cases before : place.file < files.length
  · rw [List.getElem?_append_left before] at inFiles
    exact Or.inl ⟨holder, inFiles, atPosition⟩
  · rw [List.getElem?_append_right (by omega)] at inFiles
    obtain ⟨inRange, same⟩ := List.getElem?_eq_some_iff.mp inFiles
    have atEnd : place.file = files.length := by
      rw [List.length_singleton] at inRange
      omega
    simp only [List.getElem_singleton] at same
    exact Or.inr ⟨atEnd, same ▸ atPosition⟩

/-- In the entries for one file, a name leads to the last declaration with it. -/
theorem exists_lookup_placesIn {file : SchemaFile} {position : Nat} (index : Nat)
    (declared : (items file)[position]? = some x) :
    ∃ last, (placesIn (fun file => (items file).map key) file index).lookup (key x) =
      some ⟨index, last⟩ ∧ position ≤ last := by
  rw [placesIn]
  generalize items file = xs at declared ⊢
  induction xs using List.reverseRecOn with
  | nil => cases declared
  | append_singleton xs y ih =>
    have inRange : position < xs.length + 1 := by
      simpa using (List.getElem?_eq_some_iff.mp declared).1
    rw [List.map_append, List.mapIdx_append, List.reverse_append]
    simp only [List.map_cons, List.map_nil, List.mapIdx_cons, List.mapIdx_nil,
      List.reverse_singleton, List.singleton_append, List.lookup_cons, List.length_map,
      Nat.zero_add]
    by_cases same : key x = key y
    · exact ⟨xs.length, by simp [same], by omega⟩
    · have differ : (key x == key y) = false := by simp [same]
      have before : position < xs.length := by
        by_contra atEnd
        rw [show position = xs.length by omega, List.getElem?_concat_length] at declared
        exact same (congrArg key (Option.some.inj declared).symm)
      rw [List.getElem?_append_left before] at declared
      simpa only [differ] using ih declared

/-- All entries for one file lead to this file. -/
theorem file_of_mem_placesIn {names : SchemaFile → List String} {file : SchemaFile} {index : Nat}
    (entry : (name, place) ∈ placesIn names file index) : place.file = index := by
  obtain ⟨position, inRange, same⟩ := List.mem_mapIdx.mp (List.mem_reverse.mp entry)
  obtain ⟨-, rfl⟩ := Prod.mk.inj same
  rfl

theorem indexes_nil : Indexes items key [] [] := by
  constructor
  · intro name place entry
    cases entry
  · rintro place x ⟨file, inFiles, -⟩
    cases inFiles

/-- A file that is added brings entries of its own, which stand in front of the older ones. -/
theorem Indexes.addFile (indexes : Indexes items key files table) (file : SchemaFile) :
    Indexes items key (files ++ [file])
      (placesIn (fun file => (items file).map key) file files.length ++ table) := by
  constructor
  · intro name place entry
    rcases List.mem_append.mp entry with here | before
    · obtain ⟨position, inRange, same⟩ := List.mem_mapIdx.mp (List.mem_reverse.mp here)
      obtain ⟨rfl, rfl⟩ := Prod.mk.inj same
      rw [List.length_map] at inRange
      exact ⟨(items file)[position], ⟨file, by simp, by simp [inRange]⟩, by simp⟩
    · obtain ⟨x, declared, named⟩ := indexes.stored name place before
      exact ⟨x, declared.of_shorter file, named⟩
  · intro place x declared
    rw [List.lookup_append]
    rcases declared.of_longer with before | ⟨atEnd, here⟩
    · obtain ⟨last, found, notBehind⟩ := indexes.latest place x before
      cases entry : (placesIn (fun file => (items file).map key) file files.length).lookup
          (key x) with
      | none => exact ⟨last, found, notBehind⟩
      | some later =>
        refine ⟨later, rfl, Or.inl ?_⟩
        rw [file_of_mem_placesIn (mem_of_lookup_eq_some entry)]
        exact before.inRange
    · obtain ⟨last, found, le⟩ : ∃ last,
          (placesIn (fun file => (items file).map key) file files.length).lookup (key x) =
            some ⟨files.length, last⟩ ∧ place.position ≤ last :=
        exists_lookup_placesIn files.length here
      refine ⟨⟨files.length, last⟩, ?_, Or.inr ⟨atEnd, le⟩⟩
      rw [found, Option.some_or]

/-- After any number of files, the table leads to what all of them declare. -/
theorem indexes_placesFrom (files : List SchemaFile) :
    Indexes items key files (placesFrom (fun file => (items file).map key) 0 files) := by
  induction files using List.reverseRecOn with
  | nil => exact indexes_nil
  | append_singleton files file ih =>
    rw [placesFrom_append, Nat.zero_add]
    exact ih.addFile file

/-- The first element with a key. -/
theorem find?_eq_first_iff {xs : List α} :
    xs.find? (key · = name) = some x ↔
      ∃ front back, xs = front ++ x :: back ∧ key x = name ∧
        ∀ earlier ∈ front, key earlier ≠ name := by
  rw [List.find?_eq_some_iff_append]
  constructor
  · rintro ⟨named, front, back, split, others⟩
    exact ⟨front, back, split, by simpa using named, by simpa using others⟩
  · rintro ⟨front, back, split, named, others⟩
    exact ⟨by simpa using named, front, back, split, by simpa using others⟩

/-- The last element with a key. -/
theorem find?_reverse_eq_last_iff {xs : List α} :
    xs.reverse.find? (key · = name) = some x ↔
      ∃ front back, xs = front ++ x :: back ∧ key x = name ∧ ∀ later ∈ back, key later ≠ name := by
  rw [find?_eq_first_iff]
  constructor
  · rintro ⟨behind, before, turned, named, others⟩
    refine ⟨before.reverse, behind.reverse, ?_, named, ?_⟩
    · simpa using congrArg List.reverse turned
    · simpa using others
  · rintro ⟨front, back, rfl, named, others⟩
    exact ⟨back.reverse, front.reverse, by simp, named, by simpa using others⟩

/-- A look-up over a table of places finds the last declaration with a name, straight at the place
that is stored for it. -/
structure FindsLast (items : SchemaFile → List α) (key : α → String) (files : List SchemaFile)
    (table : PlaceTable) (find? : String → Option α) : Prop where
  indexes : Indexes items key files table
  direct : ∀ name place, table.lookup name = some place →
    ∃ x, DeclaredAt items files place x ∧ find? name = some x
  last : ∀ name x, find? name = some x ↔ ∃ front back,
    files.flatMap items = front ++ x :: back ∧ key x = name ∧ ∀ later ∈ back, key later ≠ name
  absent : ∀ name, find? name = none ↔ ∀ x ∈ files.flatMap items, key x ≠ name

/-- A look-up that goes by the table of its files. -/
theorem findsLast_of_lookup {find? : String → Option α}
    (follows : ∀ name, find? name =
      ((placesFrom (fun file => (items file).map key) 0 files).lookup name).bind fun place =>
        files[place.file]?.bind fun file => (items file)[place.position]?) :
    FindsLast items key files (placesFrom (fun file => (items file).map key) 0 files) find? := by
  have found (name : String) : find? name = (files.flatMap items).reverse.find? (key · = name) := by
    rw [follows, ← lookup_placesFrom_eq_find? items 0]
    rfl
  constructor
  · exact indexes_placesFrom files
  · intro name place entry
    obtain ⟨x, declared, -⟩ :=
      (indexes_placesFrom files).stored name place (mem_of_lookup_eq_some entry)
    refine ⟨x, declared, ?_⟩
    obtain ⟨file, inFiles, atPosition⟩ := declared
    rw [follows, entry, Option.bind_some, inFiles, Option.bind_some, atPosition]
  · intro name x
    rw [found]
    exact find?_reverse_eq_last_iff
  · intro name
    rw [found]
    simp

/-- Whatever files are added to a schema, one after the other, and whatever names are used more than
once: a message or an enumeration is found under a name if it is the last one declared with this
full name, a file if it is the first one with this name, and all stored places are those of
declarations with their names. -/
theorem Schema.lookups_ofFiles (files : List SchemaFile) :
    (ofFiles files).files = files ∧
    FindsLast (·.messages) Message.fullName files (ofFiles files).messagePlaces
      (ofFiles files).message? ∧
    FindsLast (·.enums) Enumeration.fullName files (ofFiles files).enumPlaces
      (ofFiles files).enum? ∧
    ∀ name,
      (∀ file, (ofFiles files).file? name = some file ↔ ∃ front back,
        files = front ++ file :: back ∧ file.name = name ∧
          ∀ earlier ∈ front, earlier.name ≠ name) ∧
      ((ofFiles files).file? name = none ↔ ∀ file ∈ files, file.name ≠ name) := by
  have same := files_ofFiles files
  refine ⟨same, ?_, ?_, fun name => ⟨fun file => ?_, ?_⟩⟩
  · rw [messagePlaces_eq, same]
    refine findsLast_of_lookup fun name => ?_
    rw [message?, messagePlaces_eq, same]
    rfl
  · rw [enumPlaces_eq, same]
    refine findsLast_of_lookup fun name => ?_
    rw [enum?, enumPlaces_eq, same]
    rfl
  · rw [file?, same]
    exact find?_eq_first_iff
  · rw [file?, same]
    simp

end HttpClientGen
