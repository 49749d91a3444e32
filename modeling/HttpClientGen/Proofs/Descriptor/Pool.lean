import HttpClientGen.Descriptor.Load
import HttpClientGen.Proofs.Descriptor.Tree
import Mathlib.Data.List.Nodup

/-!
# Pools of linked files

Linking and the settling of options change what is said about declarations, but neither their names
nor their nesting. In the files that come out, no two messages share a full name and no two
enumerations do, and every reference leads to a message or an enumeration of the pool.
-/

namespace HttpClientGen.Descriptor

open Wire (Bytes)

section Parallel

variable {α β γ δ : Type} {R : α → β → Prop} {S : γ → δ → Prop}

theorem mapM_eq_some_iff {f : α → Option β} {xs : List α} {ys : List β} :
    xs.mapM f = some ys ↔ List.Forall₂ (fun x y => f x = some y) xs ys := by
  induction xs generalizing ys with
  | nil => simp [eq_comm]
  | cons x xs ih =>
    simp only [List.mapM_cons, Option.bind_eq_bind, Option.bind_eq_some_iff, Option.pure_def,
      Option.some.injEq, List.forall₂_cons_left_iff, ih]
    constructor
    · rintro ⟨y, here, ys, later, rfl⟩
      exact ⟨y, ys, here, later, rfl⟩
    · rintro ⟨y, ys, here, later, rfl⟩
      exact ⟨y, here, ys, later, rfl⟩

theorem forall₂_mapIdx {f : Nat → α → β} (each : ∀ position x, R x (f position x)) (xs : List α) :
    List.Forall₂ R xs (xs.mapIdx f) := by
  induction xs generalizing f with
  | nil => exact .nil
  | cons x xs ih =>
    rw [List.mapIdx_cons]
    exact .cons (each 0 x) (ih fun position => each (position + 1))

theorem forall₂_of_mapIdx_mapM {f : Nat → α → Option β} {xs : List α} {ys : List β}
    (done : (xs.mapIdx f).mapM id = some ys) :
    List.Forall₂ (fun x y => ∃ position, f position x = some y) xs ys := by
  induction xs generalizing f ys with
  | nil =>
    obtain rfl : [] = ys := by simpa using done
    exact .nil
  | cons x xs ih =>
    rw [List.mapIdx_cons, mapM_eq_some_iff] at done
    obtain ⟨y, ys, here, later, rfl⟩ := List.forall₂_cons_left_iff.mp done
    refine .cons ⟨0, here⟩ ((ih (mapM_eq_some_iff.mpr later)).imp ?_)
    rintro x y ⟨position, done⟩
    exact ⟨position + 1, done⟩

/-- Lists that are made from elements which correspond correspond as wholes. -/
theorem forall₂_flatMap {xs : List α} {ys : List β} (related : List.Forall₂ R xs ys)
    {f : α → List γ} {g : β → List δ}
    (each : ∀ x ∈ xs, ∀ y, R x y → List.Forall₂ S (f x) (g y)) :
    List.Forall₂ S (xs.flatMap f) (ys.flatMap g) := by
  induction related with
  | nil => exact .nil
  | cons here _ ih =>
    rw [List.flatMap_cons, List.flatMap_cons]
    exact List.rel_append (each _ List.mem_cons_self _ here)
      (ih fun x listed => each x (List.mem_cons_of_mem _ listed))

theorem forall₂_imp_of_mem {T : α → β → Prop} {xs : List α} {ys : List β}
    (related : List.Forall₂ R xs ys) (each : ∀ x ∈ xs, ∀ y, R x y → T x y) :
    List.Forall₂ T xs ys :=
  ((List.forall₂_and_left _ _).mpr ⟨fun _ listed => listed, related⟩).imp
    fun x y ⟨listed, holds⟩ => each x listed y holds

theorem map_eq_of_forall₂ {xs : List α} {ys : List β} (related : List.Forall₂ R xs ys)
    {f : α → γ} {g : β → γ} (each : ∀ x y, R x y → g y = f x) : ys.map g = xs.map f := by
  induction related with
  | nil => rfl
  | cons here _ ih => rw [List.map_cons, List.map_cons, each _ _ here, ih]

theorem flatMap_eq_of_forall₂ {xs : List α} {ys : List β} (related : List.Forall₂ R xs ys)
    {f : α → List γ} {g : β → List γ} (each : ∀ x y, R x y → g y = f x) :
    ys.flatMap g = xs.flatMap f := by
  rw [List.flatMap_def, List.flatMap_def, map_eq_of_forall₂ related each]

theorem flatMap_eq_of_mapIdx_mapM {f : Nat → α → Option β} {xs : List α} {ys : List β}
    (done : (xs.mapIdx f).mapM id = some ys) {g : α × Nat → List γ} {h : β → List γ}
    (each : ∀ position x y, f position x = some y → h y = g (x, position)) :
    ys.flatMap h = xs.zipIdx.flatMap g := by
  rw [List.mapIdx_eq_zipIdx_map, mapM_eq_some_iff, List.forall₂_map_left_iff] at done
  exact flatMap_eq_of_forall₂ done fun x y here => each x.2 x.1 y here

theorem exists_of_mem_right {xs : List α} {ys : List β} (related : List.Forall₂ R xs ys) {y : β}
    (listed : y ∈ ys) : ∃ x ∈ xs, R x y := by
  induction related with
  | nil => cases listed
  | cons here _ ih =>
    rcases List.mem_cons.mp listed with rfl | later
    · exact ⟨_, List.mem_cons_self, here⟩
    · obtain ⟨x, isMember, corresponds⟩ := ih later
      exact ⟨x, List.mem_cons_of_mem _ isMember, corresponds⟩

end Parallel

section Changes

/-- A message stands where it stood before, and it has been changed, apart from what is nested in
it. -/
structure ChangedBy (change : String → Message → Option Message) (before after : Scoped Message) :
    Prop where
  scope : after.scope = before.scope
  item : ∃ changed, change before.fullName before.item = some changed ∧
    after.item = { changed with nested := after.item.nested }

variable {change : String → Message → Option Message}

/-- A change leaves the name of a message and those of its enumerations as they are. -/
def KeepsNames (change : String → Message → Option Message) : Prop :=
  ∀ fullName message changed, change fullName message = some changed →
    changed.name = message.name ∧ changed.enums.map (·.name) = message.enums.map (·.name)

theorem Message.mapM_eq_some_iff {scope : String} {message result : Message} :
    message.mapM change scope = some result ↔
      ∃ changed nested, change (scopedName scope message.name) message = some changed ∧
        mapMessagesM change (scopedName scope message.name) message.nested = some nested ∧
        result = { changed with nested } := by
  cases message
  simp only [mapM, Option.bind_eq_bind, Option.bind_eq_some_iff, Option.pure_def,
    Option.some.injEq]
  constructor
  · rintro ⟨changed, own, nested, inside, rfl⟩
    exact ⟨changed, nested, own, inside, rfl⟩
  · rintro ⟨changed, nested, own, inside, rfl⟩
    exact ⟨changed, own, nested, inside, rfl⟩

theorem mapMessagesM_eq_mapM (scope : String) (messages : List Message) :
    mapMessagesM change scope messages = messages.mapM (Message.mapM change scope) := by
  induction messages with
  | nil => rw [mapMessagesM, List.mapM_nil, Option.pure_def]
  | cons message messages ih => rw [mapMessagesM, List.mapM_cons, ih]

theorem mapMessagesM_eq_some_iff {scope : String} {before after : List Message} :
    mapMessagesM change scope before = some after ↔
      List.Forall₂ (fun message result => message.mapM change scope = some result)
        before after := by
  rw [mapMessagesM_eq_mapM, mapM_eq_some_iff]

theorem Message.forall₂_withNested (keeps : KeepsNames change) (message : Message)
    {scope : String} {result : Message}
    (done : message.mapM change scope = some result) :
    List.Forall₂ (ChangedBy change) (message.withNested scope) (result.withNested scope) := by
  induction message using Message.nestedInduction generalizing scope result with
  | step message ih =>
    obtain ⟨changed, nested, own, inside, rfl⟩ := Message.mapM_eq_some_iff.mp done
    obtain ⟨sameName, -⟩ := keeps _ _ _ own
    rw [withNested_eq, withNested_eq]
    refine .cons ⟨rfl, changed, own, rfl⟩ ?_
    simp only [sameName]
    exact forall₂_flatMap (mapMessagesM_eq_some_iff.mp inside) fun inner listed _ done =>
      ih inner listed done

/-- If a change keeps names, the messages after it correspond to those before it, one by one. -/
theorem forall₂_withNestedAll (keeps : KeepsNames change) {scope : String}
    {before after : List Message} (done : mapMessagesM change scope before = some after) :
    List.Forall₂ (ChangedBy change) (withNestedAll scope before) (withNestedAll scope after) := by
  rw [withNestedAll_eq_flatMap, withNestedAll_eq_flatMap]
  exact forall₂_flatMap (mapMessagesM_eq_some_iff.mp done) fun message _ _ done =>
    message.forall₂_withNested keeps done

end Changes

section Names

def Scoped.enumName (enumeration : Scoped Enumeration) : String :=
  scopedName enumeration.scope enumeration.item.name

def messageNamesIn (files : List File) : List String :=
  files.flatMap fun file => file.allMessages.map (·.fullName)

def enumNamesIn (files : List File) : List String :=
  files.flatMap fun file => file.allEnums.map (·.enumName)

/-- A message stands where another one stands, with the same name and with enumerations of the same
names. -/
structure NamedLike (before after : Scoped Message) : Prop where
  fullName : after.fullName = before.fullName
  enums : after.item.enums.map (·.name) = before.item.enums.map (·.name)

/-- A file declares messages and enumerations of the same names as another one does. -/
structure File.NamedLike (before after : File) : Prop where
  package : after.package = before.package
  messages : List.Forall₂ Descriptor.NamedLike before.allMessages after.allMessages
  enums : after.enums.map (·.name) = before.enums.map (·.name)

theorem ChangedBy.namedLike {change : String → Message → Option Message}
    (keeps : KeepsNames change) {before after : Scoped Message}
    (changedBy : ChangedBy change before after) : NamedLike before after := by
  obtain ⟨changed, own, same⟩ := changedBy.item
  obtain ⟨name, enums⟩ := keeps _ _ _ own
  constructor
  · rw [Scoped.fullName, changedBy.scope, same, name, Scoped.fullName]
  · rw [same, enums]

theorem File.NamedLike.names_eq {before after : File} (alike : before.NamedLike after) :
    after.allMessages.map (·.fullName) = before.allMessages.map (·.fullName) ∧
      after.allEnums.map (·.enumName) = before.allEnums.map (·.enumName) := by
  have inScope {scope : String} {first second : List Enumeration}
      (same : second.map (·.name) = first.map (·.name)) :
      (second.map (Scoped.mk scope)).map (·.enumName) =
        (first.map (Scoped.mk scope)).map (·.enumName) := by
    have both := congrArg (List.map (scopedName scope)) same
    simp only [List.map_map] at both ⊢
    exact both
  refine ⟨map_eq_of_forall₂ alike.messages fun _ _ same => same.fullName, ?_⟩
  rw [allEnums, allEnums, List.map_append, List.map_append, alike.package, inScope alike.enums,
    List.map_flatMap, List.map_flatMap]
  refine congrArg (_ ++ ·) (flatMap_eq_of_forall₂ alike.messages fun _ _ same => ?_)
  rw [same.fullName, inScope same.enums]

theorem names_eq_of_forall₂ {before after : List File}
    (alike : List.Forall₂ File.NamedLike before after) :
    messageNamesIn after = messageNamesIn before ∧ enumNamesIn after = enumNamesIn before :=
  ⟨flatMap_eq_of_forall₂ alike fun _ _ same => same.names_eq.1,
    flatMap_eq_of_forall₂ alike fun _ _ same => same.names_eq.2⟩

end Names

section Linking

variable {visible : Visible} {version : Option FormatVersion}

theorem Visible.mem_of_find? {kinds : List DefinitionKind} {fullName : String}
    {definition : Definition} (found : visible.find? kinds fullName = some definition) :
    definition ∈ visible.definitions ∧ definition.kind ∈ kinds := by
  obtain ⟨first, suits⟩ := Option.filter_eq_some_iff.mp found
  have isKind := (Bool.and_eq_true_iff.mp suits).2
  exact ⟨List.mem_of_find?_eq_some first, by simpa using isKind⟩

/-- A reference is resolved to a definition of one of the kinds in question. -/
theorem Visible.mem_of_resolve? {kinds : List DefinitionKind} {scope name : String}
    {definition : Definition} (found : visible.resolve? kinds scope name = some definition) :
    definition ∈ visible.definitions ∧ definition.kind ∈ kinds := by
  rw [resolve?] at found
  split at found
  · exact mem_of_find? found
  · split at found
    · exact mem_of_find? found
    · split at found
      · obtain ⟨_, _, here⟩ := List.exists_of_findSome?_eq_some found
        exact mem_of_find? here
      · obtain ⟨_, _, here⟩ := Option.bind_eq_some_iff.mp found
        exact mem_of_find? here

/-- A type name leads to a declaration in some files. -/
def Field.IsResolved (files : List File) (field : Field) : Prop :=
  match field.type with
  | .scalar _ => True
  | .message => ∃ name ∈ messageNamesIn files, field.typeName = "." ++ name
  | .enumeration => ∃ name ∈ enumNamesIn files, field.typeName = "." ++ name

/-- Among all that can be seen, messages and enumerations are those of some files. -/
structure Visible.DeclaredIn (visible : Visible) (files : List File) : Prop where
  messages : ∀ definition ∈ visible.definitions, definition.kind = .message →
    definition.fullName ∈ messageNamesIn files
  enums : ∀ definition ∈ visible.definitions, definition.kind = .enumeration →
    definition.fullName ∈ enumNamesIn files

theorem Field.isResolved_of_link {files : List File} (declared : visible.DeclaredIn files)
    {scope : String} {field linked : Field}
    (done : field.link visible version scope = some linked) : linked.IsResolved files := by
  rw [link] at done
  split at done
  · split at done
    · next isScalar =>
      obtain rfl := Option.some.inj done
      cases type : field.type with
      | scalar kind => simp only [IsResolved]
      | message => simp [type] at isScalar
      | enumeration => simp [type] at isScalar
    · cases done
  · obtain ⟨typed, resolved, same⟩ := Option.bind_eq_some_iff.mp done
    obtain ⟨definition, found, rfl⟩ := Option.map_eq_some_iff.mp resolved
    obtain rfl := Option.some.inj same
    obtain ⟨listed, isKind⟩ := visible.mem_of_resolve? found
    rcases List.mem_pair.mp isKind with isMessage | isEnum
    · simp only [IsResolved, withType, isMessage]
      exact ⟨_, declared.messages definition listed isMessage, rfl⟩
    · simp only [IsResolved, withType, isEnum]
      exact ⟨_, declared.enums definition listed isEnum, rfl⟩

/-- The input and the output of a method lead to messages in some files. -/
def Method.IsResolved (files : List File) (method : Method) : Prop :=
  (∃ name ∈ messageNamesIn files, method.input = "." ++ name) ∧
    ∃ name ∈ messageNamesIn files, method.output = "." ++ name

theorem Visible.exists_of_messageRef? {files : List File} (declared : visible.DeclaredIn files)
    {scope name reference : String} (found : visible.messageRef? scope name = some reference) :
    ∃ name ∈ messageNamesIn files, reference = "." ++ name := by
  obtain ⟨definition, resolved, rfl⟩ := Option.map_eq_some_iff.mp found
  obtain ⟨listed, isKind⟩ := visible.mem_of_resolve? resolved
  exact ⟨_, declared.messages definition listed (List.mem_singleton.mp isKind), rfl⟩

theorem Method.isResolved_of_link {files : List File} (declared : visible.DeclaredIn files)
    {service : String} {method linked : Method}
    (done : method.link visible service = some linked) : linked.IsResolved files := by
  obtain ⟨input, foundInput, done⟩ := Option.bind_eq_some_iff.mp done
  obtain ⟨output, foundOutput, same⟩ := Option.bind_eq_some_iff.mp done
  obtain rfl := Option.some.inj same
  exact ⟨visible.exists_of_messageRef? declared foundInput,
    visible.exists_of_messageRef? declared foundOutput⟩

/-- In a file, all fields of messages and all methods lead to declarations in some files. -/
structure File.IsResolved (files : List File) (file : File) : Prop where
  fields : ∀ message ∈ file.allMessages, ∀ field ∈ message.item.fields, field.IsResolved files
  methods : ∀ service ∈ file.services, ∀ method ∈ service.methods, method.IsResolved files

theorem Message.linkOwn_eq_some_iff {fullName : String} {message changed : Message} :
    message.linkOwn visible version fullName = some changed ↔
      ∃ fields extensions,
        message.fields.mapM (Field.link visible version fullName) = some fields ∧
        message.extensions.mapM (Field.linkExtension visible version fullName) =
          some extensions ∧
        changed = { message with fields, extensions } := by
  simp only [linkOwn, Option.bind_eq_bind, Option.bind_eq_some_iff, Option.pure_def,
    Option.some.injEq]
  constructor
  · rintro ⟨fields, own, extensions, others, rfl⟩
    exact ⟨fields, extensions, own, others, rfl⟩
  · rintro ⟨fields, extensions, own, others, rfl⟩
    exact ⟨fields, own, extensions, others, rfl⟩

theorem File.link_spec {files : List File} (declared : visible.DeclaredIn files)
    {file linked : File} (done : file.link visible = some linked) :
    file.NamedLike linked ∧ linked.IsResolved files := by
  obtain ⟨messages, ownMessages, done⟩ := Option.bind_eq_some_iff.mp done
  obtain ⟨services, ownServices, done⟩ := Option.bind_eq_some_iff.mp done
  obtain ⟨extensions, -, same⟩ := Option.bind_eq_some_iff.mp done
  obtain rfl := Option.some.inj same
  have keeps : KeepsNames (Message.linkOwn visible file.version?) := by
    intro fullName message changed own
    obtain ⟨_, _, -, -, rfl⟩ := Message.linkOwn_eq_some_iff.mp own
    exact ⟨rfl, rfl⟩
  have changed := forall₂_withNestedAll keeps ownMessages
  refine ⟨⟨rfl, changed.imp fun _ _ => ChangedBy.namedLike keeps, rfl⟩, ?_, ?_⟩
  · intro after listed field isField
    obtain ⟨before, -, -, changed, own, same⟩ := exists_of_mem_right changed listed
    obtain ⟨fields, _, linked, -, rfl⟩ := Message.linkOwn_eq_some_iff.mp own
    rw [same] at isField
    obtain ⟨original, -, done⟩ := exists_of_mem_right (mapM_eq_some_iff.mp linked) isField
    exact Field.isResolved_of_link declared done
  · intro service listed method isMethod
    obtain ⟨original, -, done⟩ := exists_of_mem_right (mapM_eq_some_iff.mp ownServices) listed
    obtain ⟨methods, own, same⟩ := Option.bind_eq_some_iff.mp done
    obtain rfl := Option.some.inj same
    obtain ⟨before, -, done⟩ := exists_of_mem_right (mapM_eq_some_iff.mp own) isMethod
    exact Method.isResolved_of_link declared done

end Linking

namespace Settling

variable {settling : Settling}

theorem enumeration?_name {scope : String} {enumeration settled : Enumeration}
    (done : settling.enumeration? scope enumeration = some settled) :
    settled.name = enumeration.name := by
  obtain ⟨_, -, done⟩ := Option.bind_eq_some_iff.mp done
  obtain ⟨_, -, same⟩ := Option.bind_eq_some_iff.mp done
  obtain rfl := Option.some.inj same
  rfl

theorem map_name_of_mapM_enumeration? {scope : String} {enums settled : List Enumeration}
    (done : enums.mapM (settling.enumeration? scope) = some settled) :
    settled.map (·.name) = enums.map (·.name) :=
  map_eq_of_forall₂ (mapM_eq_some_iff.mp done) fun _ _ => enumeration?_name

/-- What settling leaves of a message: its name, the names of its enumerations, and its fields up to
their options. -/
theorem message?_spec {fullName : String} {message settled : Message}
    (done : settling.message? fullName message = some settled) :
    settled.name = message.name ∧
      settled.enums.map (·.name) = message.enums.map (·.name) ∧
      ∀ field ∈ settled.fields, ∃ before ∈ message.fields, ∃ options,
        field = { before with options } := by
  obtain ⟨fields, ownFields, done⟩ := Option.bind_eq_some_iff.mp done
  obtain ⟨enums, ownEnums, done⟩ := Option.bind_eq_some_iff.mp done
  obtain ⟨_, -, done⟩ := Option.bind_eq_some_iff.mp done
  obtain ⟨_, -, done⟩ := Option.bind_eq_some_iff.mp done
  obtain ⟨_, -, done⟩ := Option.bind_eq_some_iff.mp done
  obtain ⟨_, -, same⟩ := Option.bind_eq_some_iff.mp done
  obtain rfl := Option.some.inj same
  refine ⟨rfl, map_name_of_mapM_enumeration? ownEnums, fun field listed => ?_⟩
  obtain ⟨before, isField, done⟩ := exists_of_mem_right (mapM_eq_some_iff.mp ownFields) listed
  obtain ⟨options, -, same⟩ := Option.bind_eq_some_iff.mp done
  exact ⟨before, isField, options, (Option.some.inj same).symm⟩

theorem file?_spec {files : List File} {file settled : File}
    (done : settling.file? file = some settled) (resolved : file.IsResolved files) :
    file.NamedLike settled ∧ settled.IsResolved files := by
  obtain ⟨messages, ownMessages, done⟩ := Option.bind_eq_some_iff.mp done
  obtain ⟨enums, ownEnums, done⟩ := Option.bind_eq_some_iff.mp done
  obtain ⟨services, ownServices, done⟩ := Option.bind_eq_some_iff.mp done
  obtain ⟨_, -, done⟩ := Option.bind_eq_some_iff.mp done
  obtain ⟨_, -, same⟩ := Option.bind_eq_some_iff.mp done
  obtain rfl := Option.some.inj same
  have keeps : KeepsNames settling.message? := fun _ _ _ own =>
    ⟨(message?_spec own).1, (message?_spec own).2.1⟩
  have changed := forall₂_withNestedAll keeps ownMessages
  refine ⟨⟨rfl, changed.imp fun _ _ => ChangedBy.namedLike keeps,
    map_name_of_mapM_enumeration? ownEnums⟩, ?_, ?_⟩
  · intro after listed field isField
    obtain ⟨before, isMessage, -, changed, own, same⟩ := exists_of_mem_right changed listed
    rw [same] at isField
    obtain ⟨original, wasField, options, rfl⟩ := (message?_spec own).2.2 field isField
    exact resolved.fields before isMessage original wasField
  · intro service listed method isMethod
    obtain ⟨before, isService, done⟩ := exists_of_mem_right (mapM_eq_some_iff.mp ownServices) listed
    obtain ⟨methods, own, done⟩ := Option.bind_eq_some_iff.mp done
    obtain ⟨_, -, same⟩ := Option.bind_eq_some_iff.mp done
    obtain rfl := Option.some.inj same
    obtain ⟨original, wasMethod, done⟩ := exists_of_mem_right (mapM_eq_some_iff.mp own) isMethod
    obtain ⟨_, -, same⟩ := Option.bind_eq_some_iff.mp done
    obtain rfl := Option.some.inj same
    exact resolved.methods before isService original wasMethod

end Settling

section Pools

/-- No two messages or enumerations of some files share a full name. -/
structure NamesAreDistinct (files : List File) : Prop where
  messages : (messageNamesIn files).Nodup
  enums : (enumNamesIn files).Nodup
  apart : ∀ name ∈ messageNamesIn files, name ∉ enumNamesIn files

/-- What all sets of files have in common that descriptors are read into: names are distinct, and
references lead to declarations of the files. -/
structure IsPool (files : List File) : Prop where
  names : NamesAreDistinct files
  resolved : ∀ file ∈ files, file.IsResolved files

theorem sublist_declaredNames (file : File) :
    (file.allMessages.map (·.fullName)).Sublist (file.declaredNames.map (·.1)) ∧
      (file.allEnums.map (·.enumName)).Sublist (file.declaredNames.map (·.1)) := by
  have heads {α : Type} (xs : List α) (f : α → String) (rest : α → List String) :
      (xs.map f).Sublist (xs.flatMap fun x => f x :: rest x) := by
    rw [List.map_eq_flatMap]
    exact List.Sublist.flatMap_right xs fun x _ => List.singleton_sublist.mpr List.mem_cons_self
  simp only [File.declaredNames, List.map_append, List.map_flatMap, List.map_cons,
    List.append_assoc, List.cons_append]
  constructor
  · exact (heads _ _ _).trans (List.sublist_append_left _ _)
  · refine .trans ?_ (List.sublist_append_right _ _)
    exact (heads _ _ _).trans (List.sublist_append_left _ _)

/-- The definitions of a file, as rows of a table. -/
theorem forall₂_definitions (files : List File) :
    List.Forall₂ (fun file row => row.map (fun definition : Definition =>
        (definition.fullName, definition.kind)) = file.declaredNames) files
      (files.mapIdx fun index file =>
        file.declaredNames.map fun (fullName, kind) => ⟨fullName, kind, index⟩) := by
  refine forall₂_mapIdx (fun index file => ?_) files
  rw [List.map_map]
  exact List.map_id _

theorem mem_declaredNames_iff {file : File} {fullName : String} :
    ((fullName, .message) ∈ file.declaredNames ↔ fullName ∈ file.allMessages.map (·.fullName)) ∧
      ((fullName, .enumeration) ∈ file.declaredNames ↔
        fullName ∈ file.allEnums.map (·.enumName)) := by
  constructor
  · simp only [File.declaredNames, List.mem_append, List.mem_flatMap, List.mem_cons, List.mem_map,
      Prod.mk.injEq, reduceCtorEq, and_false, exists_false, or_false, and_true]
    simp only [eq_comm]
  · simp only [File.declaredNames, List.mem_append, List.mem_flatMap, List.mem_cons, List.mem_map,
      Prod.mk.injEq, reduceCtorEq, and_false, exists_false, or_false, and_true, false_or,
      Scoped.enumName]
    simp only [eq_comm]

theorem namesAreDistinct_of_namesAreUnique {files : List File}
    (unique : namesAreUnique files = true) : NamesAreDistinct files := by
  have names : (definitionsOf files).map (·.fullName) =
      files.flatMap fun file => file.declaredNames.map (·.1) := by
    rw [definitionsOf, List.map_flatten, ← List.flatMap_def]
    refine flatMap_eq_of_forall₂ (forall₂_definitions files) fun file row same => ?_
    rw [← same, List.map_map]
    rfl
  have distinct : (files.flatMap fun file => file.declaredNames.map (·.1)).Nodup := by
    rw [← names]
    simpa using (Bool.and_eq_true_iff.mp unique).1
  refine ⟨distinct.sublist (.flatMap_right _ fun file _ => (sublist_declaredNames file).1),
    distinct.sublist (.flatMap_right _ fun file _ => (sublist_declaredNames file).2), ?_⟩
  -- one name with two kinds would be two declarations
  intro name isMessage isEnum
  obtain ⟨first, isFirst, isMessage⟩ := List.mem_flatMap.mp isMessage
  obtain ⟨second, isSecond, isEnum⟩ := List.mem_flatMap.mp isEnum
  rw [← List.map_flatMap] at distinct
  have same := List.inj_on_of_nodup_map distinct
    (List.mem_flatMap.mpr ⟨first, isFirst, mem_declaredNames_iff.1.mpr isMessage⟩)
    (List.mem_flatMap.mpr ⟨second, isSecond, mem_declaredNames_iff.2.mpr isEnum⟩) rfl
  cases same

/-- A definition that is seen as a message, or as an enumeration, is declared as one. -/
theorem declaredIn_of_definitions {files : List File} {visible : Visible}
    (definitions : visible.definitions = definitionsOf files ++ packagesIn files) :
    visible.DeclaredIn files := by
  have declared {definition : Definition} (listed : definition ∈ visible.definitions)
      (notPackage : definition.kind ≠ .package) :
      ∃ file ∈ files, (definition.fullName, definition.kind) ∈ file.declaredNames := by
    rw [definitions] at listed
    rcases List.mem_append.mp listed with inFile | isPackage
    · obtain ⟨row, isRow, inRow⟩ := List.mem_flatten.mp inFile
      obtain ⟨file, isFile, same⟩ := exists_of_mem_right (forall₂_definitions files) isRow
      exact ⟨file, isFile, same ▸ List.mem_map_of_mem inRow⟩
    · obtain ⟨row, isRow, inRow⟩ := List.mem_flatten.mp isPackage
      obtain ⟨index, _, rfl⟩ := List.mem_mapIdx.mp isRow
      obtain ⟨name, -, rfl⟩ := List.mem_map.mp inRow
      exact absurd rfl notPackage
  constructor
  · intro definition listed isMessage
    obtain ⟨file, isFile, inFile⟩ := declared listed (by rw [isMessage]; decide)
    rw [isMessage] at inFile
    exact List.mem_flatMap.mpr ⟨file, isFile, mem_declaredNames_iff.1.mp inFile⟩
  · intro definition listed isEnum
    obtain ⟨file, isFile, inFile⟩ := declared listed (by rw [isEnum]; decide)
    rw [isEnum] at inFile
    exact List.mem_flatMap.mpr ⟨file, isFile, mem_declaredNames_iff.2.mp inFile⟩

theorem visibleInEach_spec {files : List File} {seen : List Visible}
    (done : visibleInEach files = some seen) :
    seen.length = files.length ∧ ∀ visible ∈ seen, visible.DeclaredIn files := by
  obtain ⟨_, -, done⟩ := Option.bind_eq_some_iff.mp done
  obtain ⟨_, -, same⟩ := Option.bind_eq_some_iff.mp done
  obtain rfl := Option.some.inj same
  refine ⟨by simp, fun visible listed => ?_⟩
  obtain ⟨index, -, rfl⟩ := List.mem_map.mp listed
  exact declaredIn_of_definitions rfl

/-- Something that is done with each file and what it sees gives a file for each file. -/
theorem forall₂_of_zip_mapM {seen : List Visible} {files results : List File}
    {f : Visible × File → Option File} (length : seen.length = files.length)
    (done : (seen.zip files).mapM f = some results) :
    List.Forall₂ (fun file result => ∃ visible ∈ seen, f (visible, file) = some result)
      files results := by
  rw [mapM_eq_some_iff] at done
  induction files generalizing seen results with
  | nil =>
    rw [List.zip_nil_right, List.forall₂_nil_left_iff] at done
    rw [done]
    exact .nil
  | cons file files ih =>
    cases seen with
    | nil => cases length
    | cons visible seen =>
      obtain ⟨result, results, here, later, rfl⟩ := List.forall₂_cons_left_iff.mp done
      refine .cons ⟨visible, List.mem_cons_self, here⟩ ((ih (Nat.succ.inj length) later).imp ?_)
      rintro file result ⟨visible, listed, done⟩
      exact ⟨visible, List.mem_cons_of_mem _ listed, done⟩

/-- Files that are named like others, with references that lead to declarations of those, make up a
pool if the names of the others are distinct. -/
theorem isPool_of_forall₂ {before after : List File} (distinct : NamesAreDistinct before)
    (alike : List.Forall₂ (fun first second => first.NamedLike second ∧ second.IsResolved before)
      before after) : IsPool after := by
  obtain ⟨sameMessages, sameEnums⟩ := names_eq_of_forall₂ (alike.imp fun _ _ both => both.1)
  have same (file : File) (resolved : file.IsResolved before) : file.IsResolved after := by
    obtain ⟨fields, methods⟩ := resolved
    simp only [Field.IsResolved, Method.IsResolved, ← sameMessages, ← sameEnums] at fields methods
    exact ⟨fields, methods⟩
  obtain ⟨messages, enums, apart⟩ := distinct
  rw [← sameMessages] at messages apart
  rw [← sameEnums] at enums apart
  refine ⟨⟨messages, enums, apart⟩, fun file listed => ?_⟩
  obtain ⟨_, -, -, resolved⟩ := exists_of_mem_right alike listed
  exact same file resolved

theorem isPool_of_linkFiles {files linked : List File} {seen : List Visible}
    (visible : visibleInEach files = some seen) (done : linkFiles seen files = some linked) :
    IsPool linked ∧ seen.length = linked.length := by
  obtain ⟨length, declared⟩ := visibleInEach_spec visible
  rw [linkFiles] at done
  split at done
  · cases done
  · next checked =>
    obtain ⟨_, linking, done⟩ := Option.bind_eq_some_iff.mp done
    split at done
    · obtain rfl := Option.some.inj done
      have unique : namesAreUnique files = true := by
        simp only [Bool.or_eq_true, not_or, Bool.not_eq_true, Bool.not_eq_false'] at checked
        exact checked.1.2
      have each := forall₂_of_zip_mapM length linking
      refine ⟨isPool_of_forall₂ (namesAreDistinct_of_namesAreUnique unique) (each.imp ?_),
        length.trans each.length_eq⟩
      rintro file result ⟨visible, isSeen, done⟩
      exact File.link_spec (declared visible isSeen) done
    · cases done

theorem isPool_of_settleFiles {linked settled : List File} {seen : List Visible}
    (length : seen.length = linked.length) (pool : IsPool linked)
    (done : settleFiles seen linked = some settled) : IsPool settled := by
  refine isPool_of_forall₂ pool.names (forall₂_imp_of_mem (forall₂_of_zip_mapM length done) ?_)
  rintro file listed result ⟨visible, -, done⟩
  exact Settling.file?_spec done (pool.resolved file listed)

/-- Descriptors are read into a pool. -/
theorem isPool_of_readFiles? {descriptors : List Bytes} {around : Surroundings}
    (read : readFiles? descriptors = some around) : IsPool around.files := by
  obtain ⟨files, -, read⟩ := Option.bind_eq_some_iff.mp read
  obtain ⟨seen, visible, read⟩ := Option.bind_eq_some_iff.mp read
  obtain ⟨linked, linking, read⟩ := Option.bind_eq_some_iff.mp read
  obtain ⟨settled, settling, same⟩ := Option.bind_eq_some_iff.mp read
  obtain rfl := Option.some.inj same
  obtain ⟨pool, length⟩ := isPool_of_linkFiles visible linking
  exact isPool_of_settleFiles length pool settling

end Pools

end HttpClientGen.Descriptor
