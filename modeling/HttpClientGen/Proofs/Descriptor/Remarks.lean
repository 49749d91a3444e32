import HttpClientGen.Proofs.Descriptor.Load
import HttpClientGen.Proofs.Descriptor.Paths
import HttpClientGen.Proofs.Text.Blank

/-!
# Comments on declarations

The locations of a file give comments on what stands at some paths. What stands at a path has the
comment of the last of them that is not blank. In a loaded file each declaration has the comment on
its own path, and none has that on another one.
-/

namespace HttpClientGen

open Descriptor (DefinitionKind)

/-- The name and the comment of something of a kind, unless those of another kind are asked for. -/
def remark (own : DefinitionKind) (name : String) (comments : Option String)
    (kind : DefinitionKind) : List (String × Option String) :=
  if own = kind then [(name, comments)] else []

/-- What there is of a kind in a message: names on the way down to it, and comments. -/
def Message.remarks (message : Message) (kind : DefinitionKind) : List (String × Option String) :=
  remark .message message.declared.path message.comments kind ++
    message.fields.flatMap fun field =>
      remark .field (scopedName message.declared.path field.name) field.comments kind

def Enumeration.remarks (enumeration : Enumeration) (kind : DefinitionKind) :
    List (String × Option String) :=
  remark .enumeration enumeration.declared.path enumeration.comments kind ++
    enumeration.values.flatMap fun value =>
      remark .enumValue (scopedName enumeration.declared.path value.name) value.comments kind

def Service.remarks (service : Service) (kind : DefinitionKind) : List (String × Option String) :=
  remark .service service.declared.path service.comments kind ++
    service.methods.flatMap fun method =>
      remark .method (scopedName service.declared.path method.name) method.comments kind

def SchemaFile.remarks (file : SchemaFile) (kind : DefinitionKind) :
    List (String × Option String) :=
  file.messages.flatMap (·.remarks kind) ++ file.enums.flatMap (·.remarks kind) ++
    file.services.flatMap (·.remarks kind)

namespace Descriptor

/-- A location comments on what stands at a path, and its comment is not blank. -/
def Location.CommentsOn (location : Location) (path : List Int) : Prop :=
  location.path = path ∧
    ∃ text ∈ location.leadingComments, ∃ c ∈ text.toList, Text.isBlank c = false

/-- What some locations say about what stands at a path: the comment of the last one that comments
on it, up to the blanks at the end, or nothing if there is none. -/
def IsComment (locations : List Location) (path : List Int) : Option String → Prop
  | none => ∀ location ∈ locations, ¬location.CommentsOn path
  | some comment => ∃ front location back, locations = front ++ location :: back ∧
      location.CommentsOn path ∧ (∀ later ∈ back, ¬later.CommentsOn path) ∧
      ∃ text blanks, location.leadingComments = some text ∧
        text.toList = comment.toList ++ blanks ∧ (∀ c ∈ blanks, Text.isBlank c = true) ∧
        ∀ c ∈ comment.toList.getLast?, Text.isBlank c = false

section Comments

variable {location : Location} {path : List Int}

/-- The comment of a location, if it is one on what stands at a path. -/
def Location.comment? (path : List Int) (location : Location) : Option (List Char) :=
  if location.path = path then
    (location.leadingComments.map (Text.trimEnd ·.toList)).filter (· ≠ [])
  else none

theorem Location.comment?_eq_some_iff {comment : List Char} :
    location.comment? path = some comment ↔ location.path = path ∧
      ∃ text, location.leadingComments = some text ∧ Text.trimEnd text.toList = comment ∧
        comment ≠ [] := by
  rw [comment?]
  split
  · next here =>
    simp only [here, true_and, Option.filter_eq_some_iff, Option.map_eq_some_iff, decide_eq_true_eq]
    constructor
    · rintro ⟨⟨text, written, trimmed⟩, visible⟩
      exact ⟨text, written, trimmed, visible⟩
    · rintro ⟨text, written, trimmed, visible⟩
      exact ⟨⟨text, written, trimmed⟩, visible⟩
  · next elsewhere => simp [elsewhere]

/-- A location that comments on what stands at a path is one that has a comment for it. -/
theorem Location.commentsOn_iff :
    location.CommentsOn path ↔ ∃ comment, location.comment? path = some comment := by
  have visible (text : String) :
      (∃ c ∈ text.toList, Text.isBlank c = false) ↔ Text.trimEnd text.toList ≠ [] := by
    rw [ne_eq, Text.trimEnd_eq_nil_iff]
    simp
  simp only [comment?_eq_some_iff, CommentsOn, Option.mem_def, visible]
  constructor
  · rintro ⟨here, text, written, visible⟩
    exact ⟨_, here, text, written, rfl, visible⟩
  · rintro ⟨_, here, text, written, rfl, visible⟩
    exact ⟨here, text, written, visible⟩

theorem Location.not_commentsOn (silent : location.comment? path = none) :
    ¬location.CommentsOn path := by
  rw [commentsOn_iff, silent]
  simp

/-- The comment that a file has for a path is what its locations say. -/
theorem File.isComment_comment? (file : File) (path : List Int) :
    IsComment file.locations path (file.comment? path) := by
  have said : file.comment? path =
      (file.locations.filterMap (Location.comment? path)).getLast?.map String.ofList := rfl
  rw [said]
  cases last : (file.locations.filterMap (Location.comment? path)).getLast? with
  | none =>
    have silent := List.filterMap_eq_nil_iff.mp (List.getLast?_eq_none_iff.mp last)
    exact fun location listed => Location.not_commentsOn (silent location listed)
  | some comment =>
    obtain ⟨earlier, all⟩ := List.getLast?_eq_some_iff.mp last
    obtain ⟨front, rest, split, -, one⟩ := List.filterMap_eq_append_iff.mp all
    obtain ⟨between, location, back, rfl, -, found, none⟩ := List.filterMap_eq_cons_iff.mp one
    have silent := List.filterMap_eq_nil_iff.mp none
    obtain ⟨here, text, written, trimmed, visible⟩ := Location.comment?_eq_some_iff.mp found
    obtain ⟨ends, blanks, same, blank⟩ := Text.trimEnd_eq_iff.mp trimmed
    refine ⟨front ++ between, location, back, by rw [split, List.append_assoc],
      Location.commentsOn_iff.mpr ⟨comment, found⟩,
      fun later listed => Location.not_commentsOn (silent later listed), text, blanks, written, ?_⟩
    rw [String.toList_ofList]
    exact ⟨same, blank, ends⟩

end Comments

/-- What a file says about the sites of a kind. -/
def File.remarksOn (file : File) (sites : List Site) (kind : DefinitionKind) :
    List (String × Option String) :=
  (sites.filter (·.declaration.kind = kind)).map fun site => (site.name, file.comment? site.path)

section Sites

variable {file : File} {kind : DefinitionKind} {scope : String} {path : List Int}

theorem File.remarksOn_append (front back : List Site) :
    file.remarksOn (front ++ back) kind =
      file.remarksOn front kind ++ file.remarksOn back kind := by
  rw [remarksOn, List.filter_append, List.map_append]
  rfl

theorem File.remarksOn_noLists :
    file.remarksOn (Lists.sites scope path []) kind = [] := rfl

theorem File.remarksOn_flatMap {α : Type} (xs : List α) (sites : α → List Site) :
    file.remarksOn (xs.flatMap sites) kind = xs.flatMap fun x => file.remarksOn (sites x) kind := by
  rw [remarksOn, List.filter_flatMap, List.map_flatMap]
  rfl

theorem File.remarksOn_cons (site : Site) (sites : List Site) :
    file.remarksOn (site :: sites) kind =
      remark site.declaration.kind site.name (file.comment? site.path) kind ++
        file.remarksOn sites kind := by
  rw [remarksOn, remark, List.filter_cons]
  by_cases same : site.declaration.kind = kind
  · simp [same, remarksOn]
  · simp [same, remarksOn]

/-- Nothing is visited inside of declarations that have no lists. -/
theorem File.remarksOn_leaf {α : Type} (declare : α → Declaration)
    (leaf : ∀ x, (declare x).isMapEntry = false ∧ (declare x).lists = []) (x : α) :
    file.remarksOn ((declare x).sites scope path) kind =
      remark (declare x).kind (scopedName scope (declare x).name) (file.comment? path) kind := by
  rw [Declaration.sites_of_kept (leaf x).1, (leaf x).2, remarksOn_cons]
  exact List.append_nil _

end Sites

section Loading

variable {around : Surroundings} {file : File} {kind : DefinitionKind} {scope : String}
  {path : List Int}

namespace Surroundings

theorem remarks_enumeration (declared : Enumeration) :
    (enumeration file scope path declared).remarks kind =
      file.remarksOn ((Declaration.enumeration declared).sites scope path) kind := by
  rw [Declaration.sites_of_kept rfl, File.remarksOn_cons, Declaration.lists, Lists.sites_cons,
    HttpClientGen.Enumeration.remarks, enumeration, List.mapIdx_eq_zipIdx_map, List.flatMap_map]
  simp only [File.remarksOn_append, File.remarksOn_flatMap, File.remarksOn_noLists, List.append_nil,
    File.remarksOn_leaf .enumValue fun _ => ⟨rfl, rfl⟩]
  rfl

/-- What there is of a kind in the messages and the enumerations that something stands for. -/
def Flattened.remarks (flattened : Flattened) (kind : DefinitionKind) :
    List (String × Option String) :=
  flattened.messages.flatMap (·.remarks kind) ++ flattened.enums.flatMap (·.remarks kind)

/-- What there is of a kind is in messages or in enumerations, but not in both. -/
theorem remarks_comm (messages : List HttpClientGen.Message)
    (enums : List HttpClientGen.Enumeration) (kind : DefinitionKind) :
    enums.flatMap (·.remarks kind) ++ messages.flatMap (·.remarks kind) =
      messages.flatMap (·.remarks kind) ++ enums.flatMap (·.remarks kind) := by
  have apart : (∀ message : HttpClientGen.Message, message.remarks kind = []) ∨
      ∀ enumeration : HttpClientGen.Enumeration, enumeration.remarks kind = [] := by
    cases kind <;>
      simp [HttpClientGen.Message.remarks, HttpClientGen.Enumeration.remarks, remark]
  rcases apart with none | none
  · rw [List.flatMap_eq_nil_iff.mpr fun message _ => none message, List.append_nil, List.nil_append]
  · rw [List.flatMap_eq_nil_iff.mpr fun enumeration _ => none enumeration, List.append_nil,
      List.nil_append]

theorem Flattened.remarks_append (front back : Flattened) :
    (front.append back).remarks kind = front.remarks kind ++ back.remarks kind := by
  simp only [remarks, append, List.flatMap_append, List.append_assoc]
  rw [← List.append_assoc (back.messages.flatMap _), ← remarks_comm, List.append_assoc]

theorem remarks_flattenAll {messages : List Message}
    (each : ∀ message ∈ messages, ∀ path, (around.flatten file scope path message).remarks kind =
      file.remarksOn ((Declaration.message message).sites scope path) kind)
    (pathTo : Nat → List Int) (position : Nat) :
    (around.flattenAll file scope pathTo position messages).remarks kind =
      (messages.zipIdx position).flatMap fun x =>
        file.remarksOn ((Declaration.message x.1).sites scope (pathTo x.2)) kind := by
  induction messages generalizing position with
  | nil =>
    rw [flattenAll]
    rfl
  | cons message messages ih =>
    obtain ⟨here, later⟩ := List.forall_mem_cons.mp each
    rw [flattenAll, Flattened.remarks_append, here, ih later, List.zipIdx_cons, List.flatMap_cons]

theorem name_field (message : String) (oneofs : List Oneof) (field : Field) :
    (around.field message oneofs field).name = field.name := by
  rw [Surroundings.field]
  split <;> rfl

theorem flatten_of_isMapEntry {message : Message} (isEntry : message.isMapEntry = true) :
    around.flatten file scope path message = {} := by
  cases message
  rw [flatten, if_pos isEntry]

/-- A message that does not describe the entries of a map stands for itself, its enumerations, and
what is nested in it. -/
theorem remarks_flatten_of_kept {message : Message} (kept : message.isMapEntry = false) :
    (around.flatten file scope path message).remarks kind =
      remark .message (scopedName scope message.name) (file.comment? path) kind ++
      (message.fields.zipIdx.flatMap fun field =>
        remark .field (scopedName (scopedName scope message.name) field.1.name)
          (file.comment? (inside path 2 field.2)) kind) ++
      (message.enums.zipIdx.flatMap fun declared =>
        (enumeration file (scopedName scope message.name) (inside path 4 declared.2)
          declared.1).remarks kind) ++
      (around.flattenAll file (scopedName scope message.name) (inside path 3) 0
        message.nested).remarks kind := by
  cases message
  rw [flatten, if_neg (by simp [kept]), Flattened.remarks_append]
  refine congrArg (· ++ _) ?_
  simp only [Flattened.remarks, List.flatMap_singleton, HttpClientGen.Message.remarks,
    List.mapIdx_eq_zipIdx_map, List.flatMap_map, name_field]

/-- What a message stands for has the comments on its sites. -/
theorem remarks_flatten (message : Message) :
    (around.flatten file scope path message).remarks kind =
      file.remarksOn ((Declaration.message message).sites scope path) kind := by
  induction message using Message.nestedInduction generalizing scope path with
  | step message ih =>
    cases kept : (Declaration.message message).isMapEntry with
    | true =>
      rw [flatten_of_isMapEntry kept, Declaration.sites_of_isMapEntry kept]
      rfl
    | false =>
      rw [remarks_flatten_of_kept kept, remarks_flattenAll fun inner listed _ => ih inner listed,
        Declaration.sites_of_kept kept, File.remarksOn_cons, Declaration.lists, Lists.sites_cons,
        Lists.sites_cons, Lists.sites_cons]
      simp only [File.remarksOn_append, File.remarksOn_flatMap, File.remarksOn_noLists,
        List.append_nil, List.append_assoc, File.remarksOn_leaf .field fun _ => ⟨rfl, rfl⟩,
        ← remarks_enumeration]
      rfl

theorem remarks_service? {service : Service} {made : HttpClientGen.Service}
    (done : around.service? file path service = some made) :
    made.remarks kind = file.remarksOn ((Declaration.service service).sites "" path) kind := by
  have named : scopedName "" (Declaration.service service).name = service.name := if_pos rfl
  obtain ⟨methods, ownMethods, same⟩ := Option.bind_eq_some_iff.mp done
  obtain rfl := Option.some.inj same
  rw [Declaration.sites_of_kept rfl, File.remarksOn_cons, Declaration.lists, Lists.sites_cons,
    File.remarksOn_append, File.remarksOn_flatMap, File.remarksOn_noLists, List.append_nil, named]
  refine congrArg (_ ++ ·) (flatMap_eq_of_mapIdx_mapM ownMethods ?_)
  intro position method result made
  obtain ⟨_, -, same⟩ := Option.bind_eq_some_iff.mp made
  obtain rfl := Option.some.inj same
  exact (File.remarksOn_leaf .method (fun _ => ⟨rfl, rfl⟩) method).symm

/-- A loaded file has the comments on its sites. -/
theorem remarks_file? {loaded : SchemaFile} (done : around.file? file = some loaded) :
    loaded.remarks kind = file.remarksOn file.sites kind := by
  obtain ⟨services, ownServices, same⟩ := Option.bind_eq_some_iff.mp done
  obtain rfl := Option.some.inj same
  have ofServices : services.flatMap (·.remarks kind) = file.services.zipIdx.flatMap fun service =>
      file.remarksOn ((Declaration.service service.1).sites "" (inside [] 6 service.2)) kind :=
    flatMap_eq_of_mapIdx_mapM ownServices fun _ _ _ => remarks_service?
  have ofMessages : (around.flattenAll file "" (inside [] 4) 0 file.messages).remarks kind =
      file.messages.zipIdx.flatMap fun message =>
        file.remarksOn ((Declaration.message message.1).sites "" (inside [] 4 message.2)) kind :=
    remarks_flattenAll (fun message _ _ => remarks_flatten message) (inside [] 4) 0
  -- the walk meets the enumerations outside of messages first, but the loaded file lists them later
  rw [SchemaFile.remarks, List.flatMap_append, ofServices, ← List.append_assoc, ← remarks_comm,
    List.append_assoc (List.flatMap _ _), ← Flattened.remarks, ofMessages,
    List.mapIdx_eq_zipIdx_map, List.flatMap_map, File.sites, File.lists, Lists.sites_cons,
    Lists.sites_cons, Lists.sites_cons]
  simp only [File.remarksOn_append, File.remarksOn_flatMap, ← remarks_enumeration,
    File.remarksOn_noLists, List.append_nil, List.append_assoc]
  rfl

end Surroundings

/-- All that is loaded of a file has the comments that some locations have for its own path. -/
def File.HasOwnComments (file : File) (locations : List Location) (loaded : SchemaFile) : Prop :=
  ∀ kind, List.Forall₂
    (fun site remark => remark.1 = site.name ∧ IsComment locations site.path remark.2)
    (file.sites.filter (·.declaration.kind = kind)) (loaded.remarks kind)

theorem File.hasOwnComments_of_file? {loaded : SchemaFile}
    (done : around.file? file = some loaded) : file.HasOwnComments file.locations loaded := by
  intro kind
  rw [Surroundings.remarks_file? done, remarksOn, List.forall₂_map_right_iff]
  exact List.forall₂_same.mpr fun site _ => ⟨rfl, file.isComment_comment? site.path⟩

/-- Each declaration has its own comment. Whatever the locations of a file are, the sites of the
file have paths of their own, and they are all that a path leads to without passing an entry of a
map. What is loaded of the file are these sites, with the comments on their paths. -/
theorem comments_stand_at_own_paths (around : Surroundings) (file : File) :
    (file.sites.map (·.path)).Nodup ∧
      (∀ path declaration,
        (∃ site ∈ file.sites, site.path = path ∧ site.declaration = declaration) ↔
          file.at? path = some declaration ∧ AvoidsEntries file.at? path) ∧
      ∀ locations loaded, around.file? { file with locations } = some loaded →
        file.HasOwnComments locations loaded := by
  refine ⟨file.nodup_sites, file.exists_site_iff, ?_⟩
  intro locations loaded done
  -- a walk over the file does not look at its locations
  exact File.hasOwnComments_of_file? done

/-- A file with a message that holds the entries of a map and another message behind them. -/
def shelfFile : File where
  name := "library.proto"
  package := "library"
  messages := [{
    name := "Shelf"
    fields := [{ name := "books", number := 1, repeated := true, type := .message,
                 typeName := ".library.Shelf.BooksEntry" }]
    nested := [
      { name := "BooksEntry", options := Wire.putNumber 7 1 },
      { name := "Book", enums := [{ name := "Kind", values := [{ name := "NOVEL" }] }] }] }]
  services := [{
    name := "Library"
    methods := [{ name := "Sort", input := ".library.Shelf", output := ".library.Shelf" }] }]

/-- Comments on the file, of which one is on the entries of the map, one is blank, and one is
replaced. -/
def shelfLocations : List Location := [
  ⟨[4, 0], some " Draft"⟩, ⟨[4, 0], some " A shelf. \n"⟩, ⟨[4, 0], some "\n"⟩,
  ⟨[4, 0, 2, 0], some "By title.\n"⟩, ⟨[4, 0, 3, 0], some "An entry."⟩,
  ⟨[4, 0, 3, 1], some "A book."⟩, ⟨[4, 0, 3, 1, 4, 0], none⟩,
  ⟨[4, 0, 3, 1, 4, 0, 2, 0], some "Fiction."⟩, ⟨[6, 0, 2, 0], some "Sorts."⟩]

theorem comments_of_shelfFile :
    ∃ loaded,
      (Surroundings.ofFiles [shelfFile] [shelfFile]).file?
        { shelfFile with locations := shelfLocations } = some loaded ∧
      shelfFile.HasOwnComments shelfLocations loaded ∧
      loaded.remarks .message = [("Shelf", some " A shelf."), ("Shelf.Book", some "A book.")] ∧
      loaded.remarks .field = [("Shelf.books", some "By title.")] ∧
      loaded.remarks .enumeration = [("Shelf.Book.Kind", none)] ∧
      loaded.remarks .enumValue = [("Shelf.Book.Kind.NOVEL", some "Fiction.")] ∧
      loaded.remarks .service = [("Library", none)] ∧
      loaded.remarks .method = [("Library.Sort", some "Sorts.")] := by
  have isLoaded : ((Surroundings.ofFiles [shelfFile] [shelfFile]).file?
      { shelfFile with locations := shelfLocations }).isSome := by decide +kernel
  have facts : ∀ loaded ∈ (Surroundings.ofFiles [shelfFile] [shelfFile]).file?
        { shelfFile with locations := shelfLocations },
      loaded.remarks .message = [("Shelf", some " A shelf."), ("Shelf.Book", some "A book.")] ∧
      loaded.remarks .field = [("Shelf.books", some "By title.")] ∧
      loaded.remarks .enumeration = [("Shelf.Book.Kind", none)] ∧
      loaded.remarks .enumValue = [("Shelf.Book.Kind.NOVEL", some "Fiction.")] ∧
      loaded.remarks .service = [("Library", none)] ∧
      loaded.remarks .method = [("Library.Sort", some "Sorts.")] := by decide +kernel
  obtain ⟨loaded, done⟩ := Option.isSome_iff_exists.mp isLoaded
  obtain ⟨-, -, own⟩ := comments_stand_at_own_paths (.ofFiles [shelfFile] [shelfFile]) shelfFile
  exact ⟨loaded, done, own shelfLocations loaded done, facts loaded done⟩

end Loading

section Schemas

variable {descriptors : List Wire.Bytes} {around : Surroundings} {schema : Schema}

/-- In a schema, what is loaded of each file has the comments of that file. -/
theorem forall₂_hasOwnComments (pool : readFiles? descriptors = some around)
    (loaded : loadSchema descriptors = .ok schema) :
    List.Forall₂ (fun file made => file.HasOwnComments file.locations made) around.files
      schema.files :=
  (forall₂_file?_of_loadSchema pool loaded).imp fun _ _ => File.hasOwnComments_of_file?

end Schemas

end Descriptor

end HttpClientGen
