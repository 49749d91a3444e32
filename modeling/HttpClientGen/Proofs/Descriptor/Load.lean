import HttpClientGen.Proofs.Descriptor.Pool
import HttpClientGen.Proofs.Except
import HttpClientGen.Proofs.Lookup

/-!
# What is loaded

A schema has a file for each file of the descriptors, and in it all messages and enumerations that
are kept, one by one and in the order of the walk over the tree, with the names that their places
give them. Since full names are unique, a look-up finds the messages that are kept and nothing else.
-/

namespace HttpClientGen.Descriptor

open Wire

/-- The enumerations in a message, with the names on the way down to the message. -/
def Placed.enums (placed : Placed) : List (List String × Enumeration) :=
  placed.message.enums.map (placed.path, ·)

/-- The enumerations of a file, with the names on the way down: those outside of messages, and those
in the messages that are kept. -/
def File.keptEnums (file : File) : List (List String × Enumeration) :=
  file.enums.map ([], ·) ++ file.kept.flatMap Placed.enums

section Flattening

variable {around : Surroundings} {file : File} {outer : List Message} {scope : String}

/-- What a message at a place becomes, apart from comments. -/
structure Surroundings.Makes (around : Surroundings) (file : File) (placed : Placed)
    (made : HttpClientGen.Message) : Prop where
  declared : made.declared = ⟨file.package, placed.path.foldl scopedName ""⟩
  fields : List.Forall₂ (fun field result => ∃ comments,
    result = { around.field made.fullName placed.message.oneofs field with comments })
    placed.message.fields made.fields

/-- What an enumeration becomes, wherever its comments stand. -/
def MakesEnum (file : File) (declared : List String × Enumeration)
    (made : HttpClientGen.Enumeration) : Prop :=
  ∃ location,
    made = Surroundings.enumeration file (declared.1.foldl scopedName "") location declared.2

/-- What a method becomes, apart from its annotation and comments. -/
def MakesMethod (method : Method) (made : HttpClientGen.Method) : Prop :=
  ∃ binding comments, made =
    { name := method.name
      input := withoutDots method.input
      output := withoutDots method.output
      clientStreaming := method.clientStreaming
      serverStreaming := method.serverStreaming
      binding, comments }

namespace Surroundings

/-- What some places become together. -/
structure Covers (around : Surroundings) (file : File) (kept : List Placed)
    (flattened : Flattened) : Prop where
  messages : List.Forall₂ (around.Makes file) kept flattened.messages
  enums : List.Forall₂ (MakesEnum file) (kept.flatMap Placed.enums) flattened.enums

theorem Covers.append {front back : List Placed} {first second : Flattened}
    (here : around.Covers file front first) (later : around.Covers file back second) :
    around.Covers file (front ++ back) (first.append second) where
  messages := List.rel_append here.messages later.messages
  enums := by
    rw [List.flatMap_append]
    exact List.rel_append here.enums later.enums

theorem forall₂_makesEnum (file : File) (path : List String) (place : Nat → List Int)
    (enums : List Enumeration) :
    List.Forall₂ (MakesEnum file) (enums.map (path, ·))
      (enums.mapIdx fun position => enumeration file (path.foldl scopedName "") (place position)) :=
  List.forall₂_map_left_iff.mpr (forall₂_mapIdx (fun position _ => ⟨place position, rfl⟩) enums)

theorem covers_flattenAll {messages : List Message}
    (each : ∀ message ∈ messages, ∀ path,
      around.Covers file ((message.places outer).filter (·.isKept))
        (around.flatten file scope path message))
    (pathTo : Nat → List Int) (position : Nat) :
    around.Covers file ((messages.flatMap (Message.places outer)).filter (·.isKept))
      (around.flattenAll file scope pathTo position messages) := by
  induction messages generalizing position with
  | nil =>
    rw [flattenAll]
    exact ⟨.nil, .nil⟩
  | cons message messages ih =>
    obtain ⟨here, later⟩ := List.forall_mem_cons.mp each
    rw [flattenAll, List.flatMap_cons, List.filter_append]
    exact (here _).append (ih later (position + 1))

/-- A message becomes what is kept of its places, unless a message around it only describes the
entries of a map. -/
theorem covers_flatten (message : Message) (above : ∀ outside ∈ outer, outside.isMapEntry = false)
    (path : List Int) :
    around.Covers file ((message.places outer).filter (·.isKept))
      (around.flatten file ((outer.map (·.name)).foldl scopedName "") path message) := by
  -- on the way down the scope grows with the messages around, and none of these may be an entry
  induction message using Message.nestedInduction generalizing outer path with
  | step message ih =>
    by_cases isEntry : message.isMapEntry = true
    · rw [Message.filter_places_of_isMapEntry isEntry]
      cases message
      rw [flatten, if_pos isEntry]
      exact ⟨.nil, .nil⟩
    · have allAbove : ∀ outside ∈ outer ++ [message], outside.isMapEntry = false := by
        simpa [or_imp, forall_and] using And.intro above isEntry
      have isKept : Placed.isKept ⟨outer, message⟩ = true :=
        List.all_eq_true.mpr fun outside listed => by rw [allAbove outside listed, Bool.not_false]
      have inner :=
        covers_flattenAll (fun inner listed => ih inner listed allAbove) (inside path 3) 0
      have names : ((outer ++ [message]).map (·.name)).foldl scopedName "" =
          scopedName ((outer.map (·.name)).foldl scopedName "") message.name := by
        rw [List.map_append, List.foldl_append]
        rfl
      rw [Message.places_eq, List.filter_cons_of_pos isKept, ← List.singleton_append]
      rw [names] at inner
      cases message
      rw [flatten, if_neg isEntry]
      refine Covers.append ⟨.cons ⟨?_, ?_⟩ .nil, ?_⟩ inner
      · rw [Placed.path, names]
      · exact forall₂_mapIdx (fun _ _ => ⟨_, rfl⟩) _
      · rw [List.flatMap_singleton, Placed.enums, Placed.path, ← names]
        exact forall₂_makesEnum file _ _ _

/-- A file becomes what is kept of its places. -/
theorem covers_kept (around : Surroundings) (file : File) (pathTo : Nat → List Int) :
    around.Covers file file.kept (around.flattenAll file "" pathTo 0 file.messages) := by
  rw [File.kept, File.places, placesAll_eq_flatMap]
  exact covers_flattenAll (fun message _ => covers_flatten message (List.forall_mem_nil _)) pathTo 0

theorem makes_of_service? {location : List Int} {service : Service}
    {made : HttpClientGen.Service} (done : around.service? file location service = some made) :
    made.declared = ⟨file.package, service.name⟩ ∧
      List.Forall₂ MakesMethod service.methods made.methods := by
  obtain ⟨methods, ownMethods, same⟩ := Option.bind_eq_some_iff.mp done
  obtain rfl := Option.some.inj same
  refine ⟨rfl, (forall₂_of_mapIdx_mapM ownMethods).imp ?_⟩
  rintro method result ⟨position, done⟩
  obtain ⟨_, -, same⟩ := Option.bind_eq_some_iff.mp done
  exact ⟨_, _, (Option.some.inj same).symm⟩

/-- What a file becomes, apart from comments. -/
structure MakesFile (around : Surroundings) (file : File) (made : SchemaFile) :
    Prop where
  name : made.name = file.name
  package : made.package = file.package
  messages : List.Forall₂ (around.Makes file) file.kept made.messages
  enums : List.Forall₂ (MakesEnum file) file.keptEnums made.enums
  services : List.Forall₂ (fun service result => ∃ location,
    around.service? file location service = some result) file.services made.services

theorem makesFile_of_file? {loaded : SchemaFile} (done : around.file? file = some loaded) :
    around.MakesFile file loaded := by
  obtain ⟨services, ownServices, same⟩ := Option.bind_eq_some_iff.mp done
  obtain rfl := Option.some.inj same
  have covered := around.covers_kept file (inside [] 4)
  exact {
    name := rfl
    package := rfl
    messages := covered.messages
    enums := List.rel_append (forall₂_makesEnum file [] (inside [] 5) file.enums) covered.enums
    services := (forall₂_of_mapIdx_mapM ownServices).imp fun _ _ ⟨_, done⟩ => ⟨_, done⟩ }

end Surroundings

end Flattening

section Names

/-- The names of all messages and enumerations of a file can be put between dots. -/
def File.NamesAreProper (file : File) : Prop :=
  (∀ message ∈ file.allMessages, IsProper message.item.name) ∧
    ∀ enumeration ∈ file.allEnums, IsProper enumeration.item.name

instance (file : File) : Decidable file.NamesAreProper :=
  inferInstanceAs (Decidable (_ ∧ _))

/-- All names on the way down to a message are proper if those of the file are. -/
theorem File.NamesAreProper.path {file : File} (proper : file.NamesAreProper) {placed : Placed}
    (listed : placed ∈ file.places) : ∀ name ∈ placed.path, IsProper name := by
  intro name isName
  obtain ⟨above, onWay, rfl⟩ := List.mem_map.mp isName
  obtain ⟨place, isPlace, rfl⟩ := exists_place_of_mem listed onWay
  exact proper.1 _ (inScope_mem_allMessages isPlace)

theorem File.NamesAreProper.fullName {file : File} (proper : file.NamesAreProper)
    {placed : Placed} (listed : placed ∈ file.places) :
    (placed.inScope file.package).fullName = qualified file.package placed.path := by
  rw [placed.fullName_inScope,
    foldl_scopedName_eq_qualified _ placed.path_ne_nil (proper.path listed)]

/-- All names on the way down to an enumeration are proper if those of the file are. -/
theorem File.NamesAreProper.enumPath {file : File} (proper : file.NamesAreProper)
    {declared : List String × Enumeration} (listed : declared ∈ file.keptEnums) :
    ∀ name ∈ declared.1 ++ [declared.2.name], IsProper name := by
  have each : (∀ name ∈ declared.1, IsProper name) ∧ IsProper declared.2.name := by
    rcases List.mem_append.mp listed with outside | inside
    · obtain ⟨enumeration, isEnum, rfl⟩ := List.mem_map.mp outside
      exact ⟨List.forall_mem_nil _, proper.2 ⟨file.package, enumeration⟩
        (List.mem_append_left _ (List.mem_map_of_mem isEnum))⟩
    · obtain ⟨placed, isKept, inMessage⟩ := List.mem_flatMap.mp inside
      obtain ⟨enumeration, isEnum, rfl⟩ := List.mem_map.mp inMessage
      have isPlace := List.mem_of_mem_filter isKept
      refine ⟨proper.path isPlace, proper.2 ⟨(placed.inScope file.package).fullName, enumeration⟩
        (List.mem_append_right _ (List.mem_flatMap.mpr ⟨_, inScope_mem_allMessages isPlace, ?_⟩))⟩
      exact List.mem_map_of_mem isEnum
  simpa [or_imp, forall_and] using each

end Names

section Loading

variable {around : Surroundings} {file : File} {loaded : SchemaFile}

/-- How a message of a package is loaded. -/
structure LoadsMessage (package : String) (placed : Placed) (loaded : HttpClientGen.Message) :
    Prop where
  fullName : loaded.fullName = qualified package placed.path
  typeName : loaded.declared.typeName = "_".intercalate placed.path
  fields : loaded.fields.map (·.name) = placed.message.fields.map (·.name)

/-- How an enumeration is loaded that is declared below the messages with some names. -/
structure LoadsEnum (package : String) (declared : List String × Enumeration)
    (loaded : HttpClientGen.Enumeration) : Prop where
  fullName : loaded.fullName = qualified package (declared.1 ++ [declared.2.name])
  typeName : loaded.declared.typeName = "_".intercalate (declared.1 ++ [declared.2.name])
  values : loaded.values.map (fun value => (value.name, value.number)) =
    declared.2.values.map fun value => (value.name, value.number)

/-- How a service of a package is loaded. -/
structure LoadsService (package : String) (service : Service) (loaded : HttpClientGen.Service) :
    Prop where
  fullName : loaded.fullName = qualified package [service.name]
  methods : loaded.methods.map (fun method =>
      (method.name, method.clientStreaming, method.serverStreaming)) =
    service.methods.map fun method => (method.name, method.clientStreaming, method.serverStreaming)

/-- How a file is loaded: all that is kept of it, and nothing else. -/
structure LoadsFile (file : File) (loaded : SchemaFile) : Prop where
  name : loaded.name = file.name
  package : loaded.package = file.package
  messages : List.Forall₂ (LoadsMessage file.package) file.kept loaded.messages
  enums : List.Forall₂ (LoadsEnum file.package) file.keptEnums loaded.enums
  services : List.Forall₂ (LoadsService file.package) file.services loaded.services

theorem Surroundings.Makes.loadsMessage {placed : Placed} {made : HttpClientGen.Message}
    (makes : around.Makes file placed made) (proper : ∀ name ∈ placed.path, IsProper name) :
    LoadsMessage file.package placed made := by
  obtain ⟨fullName, typeName⟩ := names_of_path file.package placed.path_ne_nil proper
  refine ⟨?_, ?_, map_eq_of_forall₂ makes.fields ?_⟩
  · rw [HttpClientGen.Message.fullName, makes.declared, fullName]
  · rw [makes.declared, typeName]
  · rintro field _ ⟨comments, rfl⟩
    rw [Surroundings.field]
    split <;> rfl

theorem MakesEnum.loadsEnum {declared : List String × Enumeration}
    {made : HttpClientGen.Enumeration} (makes : MakesEnum file declared made)
    (proper : ∀ name ∈ declared.1 ++ [declared.2.name], IsProper name) :
    LoadsEnum file.package declared made := by
  obtain ⟨location, rfl⟩ := makes
  have path : scopedName (declared.1.foldl scopedName "") declared.2.name =
      (declared.1 ++ [declared.2.name]).foldl scopedName "" := by
    rw [List.foldl_append]
    rfl
  obtain ⟨fullName, typeName⟩ := names_of_path file.package (by simp) proper
  refine ⟨?_, ?_, ?_⟩
  · rw [HttpClientGen.Enumeration.fullName, Surroundings.enumeration, path, fullName]
  · rw [Surroundings.enumeration, path, typeName]
  · rw [Surroundings.enumeration]
    refine map_eq_of_forall₂ (R := fun value result => (result.name, result.number) =
      (value.name, value.number)) (forall₂_mapIdx ?_ _) fun _ _ same => same
    exact fun _ _ => rfl

theorem Surroundings.loadsService {location : List Int} {service : Service}
    {made : HttpClientGen.Service} (done : around.service? file location service = some made) :
    LoadsService file.package service made := by
  obtain ⟨declared, methods⟩ := makes_of_service? done
  constructor
  · rw [HttpClientGen.Service.fullName, declared,
      ← scopedName_eq_qualified _ (List.cons_ne_nil _ _), String.intercalate_singleton]
    rfl
  · refine map_eq_of_forall₂ methods ?_
    rintro method _ ⟨_, _, rfl⟩
    rfl

theorem Surroundings.MakesFile.loadsFile (makes : around.MakesFile file loaded)
    (proper : file.NamesAreProper) : LoadsFile file loaded where
  name := makes.name
  package := makes.package
  messages := forall₂_imp_of_mem makes.messages fun _ listed _ makes =>
    makes.loadsMessage (proper.path (List.mem_of_mem_filter listed))
  enums := forall₂_imp_of_mem makes.enums fun _ listed _ makes =>
    makes.loadsEnum (proper.enumPath listed)
  services := makes.services.imp fun _ _ ⟨_, done⟩ => loadsService done

end Loading

section Schemas

variable {descriptors : List Bytes} {around : Surroundings} {schema : Schema}

/-- A schema has what is loaded of each file. -/
theorem forall₂_file?_of_loadSchema (pool : readFiles? descriptors = some around)
    (loaded : loadSchema descriptors = .ok schema) :
    List.Forall₂ (fun file made => around.file? file = some made) around.files schema.files := by
  simp only [loadSchema, pool] at loaded
  split at loaded
  · cases loaded
  · next files done =>
    obtain rfl := Except.ok.inj loaded
    rw [Schema.files_ofFiles]
    exact mapM_eq_some_iff.mp done

/-- Each file of the descriptors becomes a file of the schema. -/
theorem forall₂_of_loadSchema (pool : readFiles? descriptors = some around)
    (loaded : loadSchema descriptors = .ok schema) :
    List.Forall₂ around.MakesFile around.files schema.files :=
  (forall₂_file?_of_loadSchema pool loaded).imp fun _ _ => Surroundings.makesFile_of_file?

def keptNamesIn (files : List File) : List String :=
  files.flatMap fun file => file.kept.map fun placed => qualified file.package placed.path

theorem File.NamesAreProper.map_fullName {file : File} (proper : file.NamesAreProper) :
    (file.places.map fun placed => qualified file.package placed.path) =
      file.allMessages.map (·.fullName) := by
  rw [← File.map_inScope_places, List.map_map]
  exact List.map_congr_left fun _ listed => (proper.fullName listed).symm

def keptEnumNamesIn (files : List File) : List String :=
  files.flatMap fun file => file.keptEnums.map fun declared =>
    qualified file.package (declared.1 ++ [declared.2.name])

theorem File.NamesAreProper.enumName {file : File} (proper : file.NamesAreProper)
    {declared : List String × Enumeration} (listed : declared ∈ file.keptEnums) :
    qualified file.package (declared.1 ++ [declared.2.name]) =
      scopedName (declared.1.foldl scopedName file.package) declared.2.name := by
  rw [← foldl_scopedName_eq_qualified _ (by simp) (proper.enumPath listed), List.foldl_append]
  rfl

theorem File.NamesAreProper.sublist_enums {file : File} (proper : file.NamesAreProper) :
    (file.keptEnums.map fun declared =>
      qualified file.package (declared.1 ++ [declared.2.name])).Sublist
        (file.allEnums.map (·.enumName)) := by
  have same : (file.keptEnums.map fun declared =>
      qualified file.package (declared.1 ++ [declared.2.name])) =
      file.keptEnums.map fun declared =>
        scopedName (declared.1.foldl scopedName file.package) declared.2.name :=
    List.map_congr_left fun _ listed => proper.enumName listed
  have inside : (fun placed : Placed => placed.enums.map fun declared =>
      scopedName (declared.1.foldl scopedName file.package) declared.2.name) =
      fun placed => ((placed.inScope file.package).item.enums.map
        (⟨(placed.inScope file.package).fullName, ·⟩ : Enumeration → Scoped Enumeration)).map
          (·.enumName) := by
    funext placed
    rw [Placed.enums, List.map_map, List.map_map, placed.fullName_inScope]
    rfl
  rw [same, keptEnums, allEnums, List.map_append, List.map_append, List.map_map, List.map_map,
    ← map_inScope_places, List.flatMap_map, List.map_flatMap, List.map_flatMap, ← inside]
  exact (List.Sublist.refl _).append (List.filter_sublist.flatMap _)

variable {files : List File}

theorem keptNamesIn_sublist (proper : ∀ file ∈ files, file.NamesAreProper) :
    (keptNamesIn files).Sublist (messageNamesIn files) := by
  refine List.Sublist.flatMap_right _ fun file listed => ?_
  rw [← (proper file listed).map_fullName]
  exact List.filter_sublist.map _

theorem keptEnumNamesIn_sublist (proper : ∀ file ∈ files, file.NamesAreProper) :
    (keptEnumNamesIn files).Sublist (enumNamesIn files) :=
  List.Sublist.flatMap_right _ fun file listed => (proper file listed).sublist_enums

/-- Loaded files declare messages and enumerations of just the names that are kept. -/
theorem names_eq_of_loadsFile {loaded : List SchemaFile}
    (loads : List.Forall₂ LoadsFile files loaded) :
    (loaded.flatMap (·.messages)).map HttpClientGen.Message.fullName = keptNamesIn files ∧
      (loaded.flatMap (·.enums)).map HttpClientGen.Enumeration.fullName =
        keptEnumNamesIn files := by
  rw [List.map_flatMap, List.map_flatMap]
  constructor
  · exact flatMap_eq_of_forall₂ loads fun _ _ loads =>
      map_eq_of_forall₂ loads.messages fun _ _ loads => loads.fullName
  · exact flatMap_eq_of_forall₂ loads fun _ _ loads =>
      map_eq_of_forall₂ loads.enums fun _ _ loads => loads.fullName

/-- Loading loses no declaration and makes up none: each file of the descriptors becomes a file,
with all messages and enumerations that are kept of it in the order of the walk over the tree. All
full names are unique, and a look-up finds just the messages that are kept. -/
theorem loads_each_declaration (pool : readFiles? descriptors = some around)
    (proper : ∀ file ∈ around.files, file.NamesAreProper)
    (loaded : loadSchema descriptors = .ok schema) :
    List.Forall₂ LoadsFile around.files schema.files ∧
      ((schema.files.flatMap (·.messages)).map HttpClientGen.Message.fullName).Nodup ∧
      ((schema.files.flatMap (·.enums)).map HttpClientGen.Enumeration.fullName).Nodup ∧
      (∀ name message, schema.message? name = some message ↔
        message ∈ schema.files.flatMap (·.messages) ∧ message.fullName = name) ∧
      ∀ name, (schema.message? name).isSome ↔
        ∃ file ∈ around.files, ∃ placed ∈ file.kept, qualified file.package placed.path = name := by
  have unique := (isPool_of_readFiles? pool).names
  have loads : List.Forall₂ LoadsFile around.files schema.files :=
    forall₂_imp_of_mem (forall₂_of_loadSchema pool loaded) fun file isFile _ makes =>
      makes.loadsFile (proper file isFile)
  obtain ⟨messages, enums⟩ := names_eq_of_loadsFile loads
  have distinct : ((schema.files.flatMap (·.messages)).map
      HttpClientGen.Message.fullName).Nodup := by
    rw [messages]
    exact unique.messages.sublist (keptNamesIn_sublist proper)
  refine ⟨loads, distinct, ?_, fun name message => Schema.message?_eq_some_iff distinct,
    fun name => ?_⟩
  · rw [enums]
    exact unique.enums.sublist (keptEnumNamesIn_sublist proper)
  · rw [Schema.isSome_message?_iff, messages, keptNamesIn]
    simp only [List.mem_flatMap, List.mem_map]

/-- The descriptor of a field with a label and a type. -/
def describedField (name : String) (number label type : Nat) (typeName : String) : Bytes :=
  putText 1 name ++ putNumber 3 number ++ putNumber 4 label ++ putNumber 5 type ++ putText 6 typeName

/-- The descriptor of a message for the entries of a map, with a field for the values. -/
def describedEntry (name : String) (value : Bytes) : Bytes :=
  putText 1 name ++
    putBytes 2 (putText 1 "key" ++ putNumber 3 1 ++ putNumber 4 1 ++ putNumber 5 9) ++
    putBytes 2 value ++ putBytes 7 (putNumber 7 1)

/-- The descriptor of a file with a message that holds another one and a map to it. The other one
holds an enumeration. -/
def libraryFile : Bytes :=
  putText 1 "library.proto" ++ putText 2 "library" ++
    putBytes 4 (putText 1 "Shelf" ++
      putBytes 2 (describedField "books" 1 3 11 ".library.Shelf.BooksEntry") ++
      putBytes 3 (describedEntry "BooksEntry" (describedField "value" 2 1 11 ".library.Shelf.Book")) ++
      putBytes 3 (putText 1 "Book" ++
        putBytes 4 (putText 1 "Kind" ++ putBytes 2 (putText 1 "NOVEL" ++ putNumber 2 0)))) ++
    putBytes 6 (putText 1 "Library" ++
      putBytes 2 (putText 1 "Sort" ++ putText 2 ".library.Shelf" ++ putText 3 ".library.Shelf")) ++
    putText 12 "proto3"

theorem loads_libraryFile :
    ∃ around schema, readFiles? [libraryFile] = some around ∧
      (∀ file ∈ around.files, file.NamesAreProper) ∧
      loadSchema [libraryFile] = .ok schema ∧
      List.Forall₂ LoadsFile around.files schema.files ∧
      keptNamesIn around.files = ["library.Shelf", "library.Shelf.Book"] ∧
      keptEnumNamesIn around.files = ["library.Shelf.Book.Kind"] ∧
      ¬(schema.message? "library.Shelf.BooksEntry").isSome := by
  have readable : (readFiles? [libraryFile]).isSome := by decide +kernel
  have correct : (loadSchema [libraryFile]).toOption.isSome := by decide +kernel
  have facts : ∀ around ∈ readFiles? [libraryFile],
      (∀ file ∈ around.files, file.NamesAreProper) ∧
      keptNamesIn around.files = ["library.Shelf", "library.Shelf.Book"] ∧
      keptEnumNamesIn around.files = ["library.Shelf.Book.Kind"] := by decide +kernel
  obtain ⟨around, pool⟩ := Option.isSome_iff_exists.mp readable
  obtain ⟨schema, loaded⟩ := Option.isSome_iff_exists.mp correct
  rw [toOption_eq_some_iff] at loaded
  obtain ⟨proper, kept, enums⟩ := facts around pool
  obtain ⟨loads, -, -, -, found⟩ := loads_each_declaration pool proper loaded
  refine ⟨around, schema, pool, proper, loaded, loads, kept, enums, fun isFound => ?_⟩
  obtain ⟨file, isFile, placed, isKept, named⟩ := (found _).mp isFound
  have listed : "library.Shelf.BooksEntry" ∈ keptNamesIn around.files :=
    List.mem_flatMap.mpr ⟨file, isFile, List.mem_map.mpr ⟨placed, isKept, named⟩⟩
  rw [kept] at listed
  exact absurd listed (by decide)

end Schemas

end HttpClientGen.Descriptor
