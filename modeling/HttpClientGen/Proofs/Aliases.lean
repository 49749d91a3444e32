import HttpClientGen.Proofs.Descriptor.Tree
import HttpClientGen.Proofs.Gathering

/-!
# Aliases stand for one type each

A well-known type takes its alias from its path in the package, with `_` for dots, whether it has a
JSON form of its own or not. So aliases tell types apart just as far as look-ups do: two names have
one alias if they lead to one type, and only then. That is why an output file, which sorts its
well-known types by alias, loses none of them, and why the alias in a type expression is always that
of the declaration meant.
-/

namespace HttpClientGen

section Replacing

variable {text new : String} {old c : Char}

theorem not_mem_replaceChar (absent : old ∉ new.toList) :
    old ∉ (replaceChar text old new).toList := by
  rw [replaceChar, String.toList_ofList]
  intro listed
  obtain ⟨d, -, written⟩ := List.mem_flatMap.mp listed
  split at written
  · exact absent written
  · next differs => exact differs (List.mem_singleton.mp written).symm

theorem mem_replaceChar (inside : old ∈ text.toList) (added : c ∈ new.toList) :
    c ∈ (replaceChar text old new).toList := by
  rw [replaceChar, String.toList_ofList]
  exact List.mem_flatMap.mpr ⟨old, inside, by rwa [if_pos rfl]⟩

/-- A name without dots and without `_` is what replacing gives for no text but itself. -/
theorem eq_replaceChar_iff {name : String} (noDot : '.' ∉ name.toList)
    (noLine : '_' ∉ name.toList) :
    name = replaceChar text '.' "_" ↔ name = text := by
  constructor
  · intro same
    have absent : '.' ∉ text.toList := by
      intro inside
      apply noLine
      rw [same]
      exact mem_replaceChar inside (by decide)
    rw [same, Descriptor.replaceChar_of_not_mem absent]
  · rintro rfl
    exact (Descriptor.replaceChar_of_not_mem noDot "_").symm

end Replacing

/-- What stands behind a text that another one starts with. -/
theorem behind_eq_some_iff {front text rest : String} :
    (front.toList.isPrefixOf? text.toList).map String.ofList = some rest ↔
      text = front ++ rest := by
  rw [Option.map_eq_some_iff]
  constructor
  · rintro ⟨cs, found, rfl⟩
    have split := List.isPrefixOf?_eq_some_iff_append_eq.mp found
    rw [← String.toList_inj, String.toList_append, String.toList_ofList, split]
  · rintro rfl
    refine ⟨rest.toList, ?_, String.ofList_toList⟩
    rw [List.isPrefixOf?_eq_some_iff_append_eq, String.toList_append]

namespace WellKnown

/-- The well-known type with a path in the package `google.protobuf`. -/
def ofPath (path : String) : WellKnown :=
  (mapped.find? (·.shortName = path)).getD (other (replaceChar path '.' "_"))

theorem ofFullName?_eq_some_iff {fullName : String} {type : WellKnown} :
    ofFullName? fullName = some type ↔
      ∃ path, fullName = "google.protobuf." ++ path ∧ ofPath path = type := by
  rw [ofFullName?, Option.map_eq_some_iff]
  constructor
  · rintro ⟨path, isPath, rfl⟩
    exact ⟨path, behind_eq_some_iff.mp isPath, rfl⟩
  · rintro ⟨path, named, rfl⟩
    exact ⟨path, behind_eq_some_iff.mpr named, rfl⟩

theorem ofPath_of_ofFullName? {path : String} {type : WellKnown}
    (known : ofFullName? ("google.protobuf." ++ path) = some type) : ofPath path = type := by
  obtain ⟨other, same, rfl⟩ := ofFullName?_eq_some_iff.mp known
  rw [(String.append_right_inj _).mp same]

theorem plain_shortName {type : WellKnown} (listed : type ∈ mapped) :
    '.' ∉ type.shortName.toList ∧ '_' ∉ type.shortName.toList := by
  revert type
  decide

/-- Whether a type has a JSON form of its own or not, its short name is its path with `_` for each
dot. -/
theorem shortName_ofPath (path : String) : (ofPath path).shortName = replaceChar path '.' "_" := by
  rw [ofPath]
  cases found : mapped.find? (·.shortName = path) with
  | none => rfl
  | some type =>
    have named : type.shortName = path := by simpa using List.find?_some found
    obtain ⟨noDot, noLine⟩ := plain_shortName (List.mem_of_find?_eq_some found)
    exact (eq_replaceChar_iff noDot noLine).mpr named

/-- Only the path with `_` for dots matters: no text that has to be rewritten becomes the name of a
type with a JSON form of its own. -/
theorem ofPath_replaceChar (path : String) : ofPath (replaceChar path '.' "_") = ofPath path := by
  have again : replaceChar (replaceChar path '.' "_") '.' "_" = replaceChar path '.' "_" :=
    Descriptor.replaceChar_of_not_mem (not_mem_replaceChar (by decide)) "_"
  have sameNames : (mapped.filter (·.shortName = replaceChar path '.' "_")) =
      mapped.filter (·.shortName = path) := by
    refine List.filter_congr fun type listed => ?_
    obtain ⟨noDot, noLine⟩ := plain_shortName listed
    simp only [eq_replaceChar_iff noDot noLine]
  rw [ofPath, ofPath, again, ← List.head?_filter, ← List.head?_filter, sameNames]

theorem ofPath_eq_iff {path other : String} :
    ofPath path = ofPath other ↔ replaceChar path '.' "_" = replaceChar other '.' "_" := by
  constructor
  · intro same
    rw [← shortName_ofPath, ← shortName_ofPath, same]
  · intro same
    rw [← ofPath_replaceChar, same, ofPath_replaceChar]

theorem aliasName_ofPath_eq_iff {path other : String} :
    (ofPath path).aliasName = (ofPath other).aliasName ↔ ofPath path = ofPath other := by
  rw [aliasName, aliasName, String.append_right_inj, shortName_ofPath, shortName_ofPath,
    ofPath_eq_iff]

/-- A look-up finds the type under some name. -/
def IsFound (type : WellKnown) : Prop :=
  ∃ fullName, ofFullName? fullName = some type

theorem IsFound.eq_of_aliasName_eq {type other : WellKnown} (found : type.IsFound)
    (otherFound : other.IsFound) (same : type.aliasName = other.aliasName) : type = other := by
  obtain ⟨_, isNamed⟩ := found
  obtain ⟨_, otherNamed⟩ := otherFound
  obtain ⟨path, -, rfl⟩ := ofFullName?_eq_some_iff.mp isNamed
  obtain ⟨_, -, rfl⟩ := ofFullName?_eq_some_iff.mp otherNamed
  exact aliasName_ofPath_eq_iff.mp same

theorem IsFound.of_needs {type origin : WellKnown} (found : origin.IsFound)
    (needs : origin.Needs type) : type.IsFound := by
  rcases List.mem_append.mp (mem_dependencies_append_iff_needs.mpr needs) with needed | itself
  · cases origin with
    | listValue =>
      obtain rfl := List.mem_singleton.mp needed
      exact ⟨"google.protobuf.Value", by decide⟩
    | _ => cases needed
  · obtain rfl := List.mem_singleton.mp itself
    exact found

end WellKnown

theorem MentionsWellKnown.isFound {files : List SchemaFile} {messages : List Message}
    {type : WellKnown} (mentioned : MentionsWellKnown files messages type) : type.IsFound := by
  obtain ⟨name, -, origin, known, needs⟩ := mentioned
  exact WellKnown.IsFound.of_needs ⟨name, known⟩ needs

namespace Schema

variable {schema : Schema}

/-- The walk sets aside the well-known types of all that it mentions, with repetitions. -/
theorem wellKnown_contentsOf (met : List String) (queue : List TypeRef) :
    (schema.contentsOf met queue).wellKnown =
      ((queue ++ (schema.contentsOf met queue).messages.flatMap Message.refs).map
        TypeRef.fullName).filterMap WellKnown.ofFullName? := by
  have skip {ref : TypeRef} (ordinary : WellKnown.ofFullName? ref.fullName = none)
      (refs : List TypeRef) :
      ((ref :: refs).map TypeRef.fullName).filterMap WellKnown.ofFullName? =
        (refs.map TypeRef.fullName).filterMap WellKnown.ofFullName? := by
    rw [List.map_cons, List.filterMap_cons_none ordinary]
  fun_induction contentsOf schema met queue with
  | case1 => rfl
  | case2 met ref rest type known ih =>
    rw [List.cons_append, List.map_cons, List.filterMap_cons_some known]
    exact congrArg (type :: ·) ih
  | case3 met ref rest ordinary _ ih => exact ih.trans (skip ordinary _).symm
  | case4 met rest fullName _ _ _ ordinary _ ih => exact ih.trans (skip ordinary _).symm
  | case5 met rest fullName _ _ enumeration _ ordinary _ ih => exact ih.trans (skip ordinary _).symm
  | case6 met rest fullName _ _ ordinary _ ih => exact ih.trans (skip ordinary _).symm
  | case7 met rest fullName _ message _ ordinary _ ih =>
    -- what the message refers to joins the queue, and it comes after the queue on the right as well
    rw [List.cons_append, skip ordinary]
    simpa only [Contents.consMessage, List.flatMap_cons, List.append_assoc] using ih

/-- All well-known types that are needed are declared: none hides another one. -/
theorem mem_wellKnown_contents_iff {files : List SchemaFile} {type : WellKnown} :
    type ∈ (schema.contents files).wellKnown ↔
      MentionsWellKnown files (schema.contents files).messages type := by
  have needed (type : WellKnown) :
      type ∈ ((schema.contentsOf [] (firstRefs files)).wellKnown.flatMap fun type =>
        type.dependencies ++ [type]) ↔
      MentionsWellKnown files (schema.contents files).messages type := by
    rw [mentionsWellKnown_iff, wellKnown_contentsOf]
    rfl
  refine (mem_ascending_iff fun type listed other otherListed => ?_).trans (needed type)
  exact ((needed type).mp listed).isFound.eq_of_aliasName_eq ((needed other).mp otherListed).isFound

end Schema

/-- In an output file each alias stands for one type. The types that are declared are those that the
package needs, each by a declaration of its own, and wherever a type is written by its alias, no
declaration but its own has this name. -/
structure PackageFile.IdentifiesAliases (file : PackageFile) (view : Viewpoint)
    (files : List SchemaFile) : Prop where
  once : (file.wellKnown.map WellKnown.aliasName).Nodup
  needed : ∀ type, type ∈ file.wellKnown ↔
    MentionsWellKnown files (view.schema.contents files).messages type
  declared : ∀ type ∈ file.wellKnown, type.declaration <:+: file.render ∧
    Document.IntroducesOnly type.declaration type.aliasName
  written : ∀ name type, WellKnown.ofFullName? name = some type →
    view.messageName name = type.aliasName ∧ view.enumName name = type.aliasName ∧
      ∀ other ∈ file.wellKnown, other.aliasName = type.aliasName → other = type

theorem Viewpoint.identifiesAliases_packageFile (view : Viewpoint) (session : Session)
    (files : List SchemaFile) :
    (view.packageFile session files).1.IdentifiesAliases view files where
  once := view.schema.nodup_aliases files
  needed type := Schema.mem_wellKnown_contents_iff
  declared type listed := by
    refine ⟨?_, type.introducesOnly⟩
    have inAliases : type.declaration <:+:
        (view.packageFile session files).1.wellKnown.flatMap WellKnown.declaration := by
      rw [List.flatMap_def]
      exact List.infix_of_mem_flatten (List.mem_map_of_mem listed)
    simp only [PackageFile.render, List.append_assoc]
    exact List.infix_append_of_infix_right (List.infix_append_of_infix_left inAliases)
  written name type known := by
    refine ⟨by rw [messageName, known], by rw [enumName, known], fun other listed same => ?_⟩
    have found := (Schema.mem_wellKnown_contents_iff.mp listed).isFound
    exact found.eq_of_aliasName_eq ⟨name, known⟩ same

/-- Aliases tell well-known types apart as far as names do that have `_` for dots. So no type is
lost when those of an output file are put in order by alias, and every alias is that of one
declaration. -/
theorem WellKnown.aliases_identify_types :
    (∀ name, (ofFullName? name).isSome ↔ ∃ path, name = "google.protobuf." ++ path) ∧
    (∀ path other type second, ofFullName? ("google.protobuf." ++ path) = some type →
      ofFullName? ("google.protobuf." ++ other) = some second →
        (type.aliasName = second.aliasName ↔ type = second) ∧
          (type = second ↔ replaceChar path '.' "_" = replaceChar other '.' "_")) ∧
    ∀ (view : Viewpoint) (session : Session) (files : List SchemaFile),
      (view.packageFile session files).1.IdentifiesAliases view files := by
  refine ⟨fun name => ?_, fun path other type second known alsoKnown => ?_,
    Viewpoint.identifiesAliases_packageFile⟩
  · rw [Option.isSome_iff_exists]
    constructor
    · rintro ⟨type, known⟩
      obtain ⟨path, named, -⟩ := ofFullName?_eq_some_iff.mp known
      exact ⟨path, named⟩
    · rintro ⟨path, named⟩
      exact ⟨_, ofFullName?_eq_some_iff.mpr ⟨path, named, rfl⟩⟩
  · obtain rfl := ofPath_of_ofFullName? known
    obtain rfl := ofPath_of_ofFullName? alsoKnown
    exact ⟨aliasName_ofPath_eq_iff, ofPath_eq_iff⟩

/-- A file with a method that gives lists of any values. -/
def eventFile : SchemaFile where
  name := "event.proto"
  package := "event"
  services := [{
    declared := ⟨"event", "Events"⟩
    methods := [{
      name := "List"
      input := "google.protobuf.Struct.FieldsEntry"
      output := "google.protobuf.ListValue" }] }]

theorem WellKnown.aliases_of_eventFile :
    ofFullName? "google.protobuf.Struct.FieldsEntry" = some (other "Struct_FieldsEntry") ∧
    ofFullName? "google.protobuf.Struct_FieldsEntry" = some (other "Struct_FieldsEntry") ∧
    replaceChar "Struct.FieldsEntry" '.' "_" = replaceChar "Struct_FieldsEntry" '.' "_" ∧
    ofFullName? "google.protobuf.ListValue" = some listValue ∧
    value ∈ ((⟨.ofFiles [eventFile], "event"⟩ : Viewpoint).packageFile {} [eventFile]).1.wellKnown ∧
    (⟨.ofFiles [eventFile], "event"⟩ : Viewpoint).messageName "google.protobuf.ListValue" =
      "wellKnownListValue" := by
  have entry : ofFullName? "google.protobuf.Struct.FieldsEntry" =
      some (other "Struct_FieldsEntry") := by decide
  have underline : ofFullName? "google.protobuf.Struct_FieldsEntry" =
      some (other "Struct_FieldsEntry") := by decide
  have list : ofFullName? "google.protobuf.ListValue" = some listValue := by decide
  obtain ⟨-, types, files⟩ := aliases_identify_types
  have alike := (types "Struct.FieldsEntry" "Struct_FieldsEntry" _ _ entry underline).2.mp rfl
  have file := files ⟨.ofFiles [eventFile], "event"⟩ {} [eventFile]
  refine ⟨entry, underline, alike, list, (file.needed value).mpr ?_, (file.written _ _ list).1⟩
  refine ⟨"google.protobuf.ListValue", ?_, listValue, list, .single (by decide)⟩
  simp [mentionedMessages, eventFile]

end HttpClientGen
