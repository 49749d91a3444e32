import HttpClientGen.Schema
import Mathlib.Data.List.Induction
import Mathlib.Data.List.Nodup

/-!
# Look-ups by name

A name stands for the last message, or the last enumeration, that the files of a schema declare
under it, and for the first file. Where names are distinct, the order of the files has no part in
the answer.
-/

namespace HttpClientGen

section Tables

variable {κ β : Type} [BEq κ] [LawfulBEq κ] {entries : List (κ × β)} {entryKey : κ} {value : β}

theorem mem_of_lookup_eq_some (entry : entries.lookup entryKey = some value) :
    (entryKey, value) ∈ entries := by
  obtain ⟨front, back, split, -⟩ := List.lookup_eq_some_iff.mp entry
  simp [split]

/-- If the keys of a table are distinct, all of its entries are found. -/
theorem lookup_eq_some_iff_of_distinct (distinct : (entries.map (·.1)).Nodup) :
    entries.lookup entryKey = some value ↔ (entryKey, value) ∈ entries := by
  refine ⟨mem_of_lookup_eq_some, fun listed => ?_⟩
  induction entries with
  | nil => cases listed
  | cons entry entries ih =>
    obtain ⟨absent, distinct⟩ := List.nodup_cons.mp distinct
    rcases List.mem_cons.mp listed with rfl | later
    · exact List.lookup_cons_self
    · have differ : (entryKey == entry.1) = false :=
        beq_eq_false_iff_ne.mpr fun same => absent (List.mem_map.mpr ⟨_, later, same⟩)
      rw [List.lookup_cons, differ]
      exact ih distinct later

end Tables

variable {α : Type} {key : α → String} {name : String}

/-- The table for the declarations of one file leads to the last one with a name. -/
theorem lookup_places_eq_find? (index : Nat) (xs : List α) :
    ((((xs.map key).mapIdx fun position name => (name, Place.mk index position)).reverse.lookup
        name).bind fun place => xs[place.position]?) = xs.reverse.find? (key · = name) := by
  induction xs using List.reverseRecOn with
  | nil => rfl
  | append_singleton xs x ih =>
    rw [List.map_append, List.mapIdx_append, List.reverse_append, List.reverse_append]
    by_cases same : name = key x
    · simp [same]
    · have differ : (name == key x) = false := by simp [same]
      have unlike : ¬key x = name := Ne.symm same
      rw [List.reverse_singleton, List.singleton_append,
        List.find?_cons_of_neg (by simpa using unlike), ← ih]
      simp only [List.map_cons, List.map_nil, List.mapIdx_cons, List.mapIdx_nil,
        List.reverse_singleton, List.singleton_append, List.lookup_cons, differ]
      refine Option.bind_congr fun place entry => ?_
      obtain ⟨position, inRange, same⟩ :=
        List.mem_mapIdx.mp (List.mem_reverse.mp (mem_of_lookup_eq_some entry))
      obtain ⟨-, rfl⟩ := Prod.mk.inj same
      exact List.getElem?_append_left (by simpa using inRange)

/-- The table for some files leads to the last of their declarations with a name. -/
theorem lookup_placesFrom_eq_find? (items : SchemaFile → List α) (index : Nat)
    (files : List SchemaFile) :
    ((placesFrom (fun file => (items file).map key) index files).lookup name).bind (fun place =>
        files[place.file - index]?.bind fun file => (items file)[place.position]?) =
      (files.flatMap items).reverse.find? (key · = name) := by
  induction files generalizing index with
  | nil => rfl
  | cons file files ih =>
    rw [placesFrom, List.lookup_append, List.flatMap_cons, List.reverse_append, List.find?_append,
      ← ih (index + 1)]
    cases entry : (placesFrom (fun file => (items file).map key) (index + 1) files).lookup name with
    | some place =>
      obtain ⟨holder, behind, found, named⟩ :=
        getElem?_of_mem_placesFrom (mem_of_lookup_eq_some entry)
      obtain ⟨x, atPosition, -⟩ := Option.map_eq_some_iff.mp (List.getElem?_map ▸ named)
      have further : (file :: files)[place.file - index]? = files[place.file - (index + 1)]? := by
        rw [show place.file - index = place.file - (index + 1) + 1 by omega]
        rfl
      simp [further, found, atPosition]
    | none =>
      rw [Option.none_or, Option.bind_none, Option.none_or, ← lookup_places_eq_find? index]
      refine Option.bind_congr fun place entry => ?_
      obtain ⟨position, inRange, same⟩ :=
        List.mem_mapIdx.mp (List.mem_reverse.mp (mem_of_lookup_eq_some entry))
      obtain ⟨-, rfl⟩ := Prod.mk.inj same
      simp

/-- What is found under its own key is told apart by its key. -/
theorem nodup_map_iff_of_found (find? : String → Option α) {xs : List α}
    (found : ∀ x ∈ xs, find? (key x) = some x) : (xs.map key).Nodup ↔ xs.Nodup := by
  refine ⟨List.Nodup.of_map _, List.Nodup.map_on fun x listed y otherListed same => ?_⟩
  have foundBoth := found x listed
  rw [same, found y otherListed] at foundBoth
  exact (Option.some.inj foundBoth).symm

namespace Schema

variable {schema : Schema}

theorem files_ofFiles (files : List SchemaFile) : (ofFiles files).files = files := by
  have foldl (schema : Schema) :
      (files.foldl addFile schema).files = schema.files ++ files := by
    induction files generalizing schema with
    | nil => rw [List.foldl_nil, List.append_nil]
    | cons file files ih =>
      rw [List.foldl_cons, ih, List.append_cons]
      rfl
  exact foldl empty

/-- A message that is found stands in one of the files. -/
theorem mem_files_of_message? {fullName : String} {message : Message}
    (found : schema.message? fullName = some message) :
    ∃ file ∈ schema.files, message ∈ file.messages := by
  rw [message?] at found
  obtain ⟨place, -, found⟩ := Option.bind_eq_some_iff.mp found
  obtain ⟨file, inFiles, found⟩ := Option.bind_eq_some_iff.mp found
  exact ⟨file, List.mem_of_getElem? inFiles, List.mem_of_getElem? found⟩

theorem message?_eq_find? (schema : Schema) (fullName : String) :
    schema.message? fullName =
      (schema.files.flatMap (·.messages)).reverse.find? (·.fullName = fullName) := by
  rw [← lookup_placesFrom_eq_find? (·.messages) 0, message?, schema.messagePlaces_eq]
  rfl

theorem enum?_eq_find? (schema : Schema) (fullName : String) :
    schema.enum? fullName =
      (schema.files.flatMap (·.enums)).reverse.find? (·.fullName = fullName) := by
  rw [← lookup_placesFrom_eq_find? (·.enums) 0, enum?, schema.enumPlaces_eq]
  rfl

theorem isSome_message?_iff {fullName : String} :
    (schema.message? fullName).isSome ↔
      fullName ∈ (schema.files.flatMap (·.messages)).map Message.fullName := by
  rw [message?_eq_find?]
  simp

theorem isSome_enum?_iff {fullName : String} :
    (schema.enum? fullName).isSome ↔
      fullName ∈ (schema.files.flatMap (·.enums)).map Enumeration.fullName := by
  rw [enum?_eq_find?]
  simp

end Schema

/-- In a list whose keys are distinct, a key leads to the element that has it. -/
theorem find?_eq_some_iff_of_distinct {xs : List α} (distinct : (xs.map key).Nodup) {x : α} :
    xs.find? (key · = name) = some x ↔ x ∈ xs ∧ key x = name := by
  constructor
  · intro found
    exact ⟨List.mem_of_find?_eq_some found, by simpa using List.find?_some found⟩
  · rintro ⟨member, named⟩
    have present : (xs.find? (key · = name)).isSome :=
      List.find?_isSome.mpr ⟨x, member, by simpa using named⟩
    obtain ⟨other, found⟩ := Option.isSome_iff_exists.mp present
    have alsoNamed : key other = name := by simpa using List.find?_some found
    rw [found, List.inj_on_of_nodup_map distinct (List.mem_of_find?_eq_some found) member
      (alsoNamed.trans named.symm)]

/-- In lists whose keys are distinct, a key leads to the same element if it belongs to the same
elements. -/
theorem find?_eq_of_distinct {xs ys : List α} (distinct : (xs.map key).Nodup)
    (distinct' : (ys.map key).Nodup) (same : ∀ x, key x = name → (x ∈ xs ↔ x ∈ ys)) :
    xs.find? (key · = name) = ys.find? (key · = name) := by
  refine Option.ext fun x => ?_
  rw [find?_eq_some_iff_of_distinct distinct, find?_eq_some_iff_of_distinct distinct']
  exact and_congr_left (same x)

theorem Schema.message?_eq_some_iff {schema : Schema} {message : Message}
    (distinct : ((schema.files.flatMap (·.messages)).map Message.fullName).Nodup) :
    schema.message? name = some message ↔
      message ∈ schema.files.flatMap (·.messages) ∧ message.fullName = name := by
  have reversed : ((schema.files.flatMap (·.messages)).reverse.map Message.fullName).Nodup := by
    rwa [List.map_reverse, List.nodup_reverse]
  rw [message?_eq_find?, find?_eq_some_iff_of_distinct reversed, List.mem_reverse]

namespace Schema

variable {first second : Schema} {added : List SchemaFile}

/-- All files have names of their own, and so have all messages and all enumerations. -/
structure Distinct (schema : Schema) : Prop where
  files : (schema.files.map (·.name)).Nodup
  messages : ((schema.files.flatMap (·.messages)).map Message.fullName).Nodup
  enums : ((schema.files.flatMap (·.enums)).map Enumeration.fullName).Nodup

/-- More files, in any order, leave a look-up as it is if they do not declare its name. -/
theorem find?_of_perm {items : SchemaFile → List α}
    (rearranged : second.files.Perm (first.files ++ added))
    (distinct : ((second.files.flatMap items).map key).Nodup)
    (absent : ∀ file ∈ added, ∀ x ∈ items file, key x ≠ name) :
    (second.files.flatMap items).reverse.find? (key · = name) =
      (first.files.flatMap items).reverse.find? (key · = name) := by
  have perm : (second.files.flatMap items).Perm
      (first.files.flatMap items ++ added.flatMap items) :=
    List.flatMap_append ▸ rearranged.flatMap_right items
  have distinctAll := (perm.map key).nodup_iff.mp distinct
  rw [List.map_append] at distinctAll
  refine find?_eq_of_distinct ?_ ?_ fun x named => ?_
  · simpa [List.map_reverse] using distinct
  · simpa [List.map_reverse] using distinctAll.of_append_left
  · have new : x ∉ added.flatMap items := by
      intro member
      obtain ⟨file, isAdded, inFile⟩ := List.mem_flatMap.mp member
      exact absent file isAdded x inFile named
    rw [List.mem_reverse, List.mem_reverse, perm.mem_iff, List.mem_append, or_iff_left new]

theorem message?_of_perm (rearranged : second.files.Perm (first.files ++ added))
    (distinct : second.Distinct) {fullName : String}
    (absent : ∀ file ∈ added, fullName ∉ file.messageNames) :
    second.message? fullName = first.message? fullName := by
  rw [message?_eq_find?, message?_eq_find?]
  refine find?_of_perm rearranged distinct.messages fun file isAdded message inFile named => ?_
  exact absent file isAdded (List.mem_map.mpr ⟨message, inFile, named⟩)

theorem enum?_of_perm (rearranged : second.files.Perm (first.files ++ added))
    (distinct : second.Distinct) {fullName : String}
    (absent : ∀ file ∈ added, fullName ∉ file.enumNames) :
    second.enum? fullName = first.enum? fullName := by
  rw [enum?_eq_find?, enum?_eq_find?]
  refine find?_of_perm rearranged distinct.enums fun file isAdded enumeration inFile named => ?_
  exact absent file isAdded (List.mem_map.mpr ⟨enumeration, inFile, named⟩)

theorem file?_of_perm (rearranged : second.files.Perm (first.files ++ added))
    (distinct : second.Distinct) {name : String} (absent : ∀ file ∈ added, file.name ≠ name) :
    second.file? name = first.file? name := by
  have distinctAll := (rearranged.map (·.name)).nodup_iff.mp distinct.files
  rw [List.map_append] at distinctAll
  refine find?_eq_of_distinct distinct.files distinctAll.of_append_left fun file named => ?_
  have new : file ∉ added := fun isAdded => absent file isAdded named
  rw [rearranged.mem_iff, List.mem_append, or_iff_left new]

end Schema

end HttpClientGen
