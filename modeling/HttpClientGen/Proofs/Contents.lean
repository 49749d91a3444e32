import HttpClientGen.Contents
import HttpClientGen.Proofs.Ascending
import HttpClientGen.Proofs.Lookup

/-!
# Contents leave nothing out

Whatever the declarations, methods and fields behind an output file mention is covered by its
contents: well-known types by their aliases, everything else that the schema knows by itself. The
walk tells mentions apart by their full names only, so this needs schemas in which no name stands
for both a message and an enumeration. Names that the schema does not know are passed over.
-/

namespace HttpClientGen

theorem isWellKnown_eq_false_iff {fullName : String} :
    isWellKnown fullName = false ↔ WellKnown.ofFullName? fullName = none := by
  simp [isWellKnown, WellKnown.ofFullName?]

/-- A type that another one refers to refers to none itself. -/
theorem WellKnown.dependencies_eq_nil_of_mem {type dependency : WellKnown}
    (needed : dependency ∈ type.dependencies) : dependency.dependencies = [] := by
  cases type with
  | listValue =>
    obtain rfl := List.mem_singleton.mp needed
    rfl
  | _ => cases needed

/-- No name stands for both a message and an enumeration. -/
def Unambiguous (refs : List TypeRef) : Prop :=
  ∀ name, ¬(.message name ∈ refs ∧ .enumeration name ∈ refs)

theorem Unambiguous.eq_of_fullName_eq {refs : List TypeRef} (unambiguous : Unambiguous refs)
    {ref other : TypeRef} (listed : ref ∈ refs) (otherListed : other ∈ refs)
    (same : ref.fullName = other.fullName) : ref = other := by
  cases ref with
  | message name =>
    cases other with
    | message other => exact congrArg TypeRef.message same
    | enumeration other =>
      obtain rfl : name = other := same
      exact absurd ⟨listed, otherListed⟩ (unambiguous name)
  | enumeration name =>
    cases other with
    | message other =>
      obtain rfl : name = other := same
      exact absurd ⟨otherListed, listed⟩ (unambiguous name)
    | enumeration other => exact congrArg TypeRef.enumeration same

instance (refs : List TypeRef) : Decidable (Unambiguous refs) :=
  decidable_of_iff (∀ ref ∈ refs, ∀ other ∈ refs, ref.fullName = other.fullName → ref = other) <| by
    constructor
    · rintro distinct name ⟨message, enumeration⟩
      cases distinct _ message _ enumeration rfl
    · intro unambiguous ref listed other otherListed same
      exact unambiguous.eq_of_fullName_eq listed otherListed same

/-- The types that a schema declares or names as the type of a field. -/
def Schema.declaredRefs (schema : Schema) : List TypeRef :=
  schema.files.flatMap fun file => file.declaredRefs ++ file.messages.flatMap Message.refs

/-- All types that a schema mentions, be it in declarations, in fields or in methods. -/
def Schema.mentions (schema : Schema) : List TypeRef :=
  schema.declaredRefs ++ schema.files.flatMap SchemaFile.methodRefs

namespace Schema

variable {schema : Schema}

theorem refs_subset_mentions {fullName : String} {message : Message}
    (found : schema.message? fullName = some message) : message.refs ⊆ schema.mentions := by
  intro ref mentioned
  obtain ⟨file, inFiles, inMessages⟩ := mem_files_of_message? found
  refine List.mem_append_left _ (List.mem_flatMap.mpr ⟨file, inFiles, ?_⟩)
  exact List.mem_append_right _ (List.mem_flatMap.mpr ⟨message, inMessages, mentioned⟩)

end Schema

namespace Contents

/-- The contents hold what a mention leads to, unless its name is among those met before. -/
structure Covers (contents : Contents) (schema : Schema) (met : List String) (ref : TypeRef) :
    Prop where
  wellKnown : ∀ type, WellKnown.ofFullName? ref.fullName = some type →
    type.aliasName ∈ contents.wellKnown.map WellKnown.aliasName
  message : ∀ fullName message, ref = .message fullName →
    WellKnown.ofFullName? fullName = none → schema.message? fullName = some message →
      fullName ∈ met ∨ message ∈ contents.messages
  enumeration : ∀ fullName enumeration, ref = .enumeration fullName →
    WellKnown.ofFullName? fullName = none → schema.enum? fullName = some enumeration →
      fullName ∈ met ∨ enumeration ∈ contents.enums

theorem Covers.message_mem {contents : Contents} {schema : Schema} {fullName : String}
    {message : Message} (covers : contents.Covers schema [] (.message fullName))
    (ordinary : WellKnown.ofFullName? fullName = none)
    (found : schema.message? fullName = some message) : message ∈ contents.messages :=
  (covers.message fullName message rfl ordinary found).resolve_left List.not_mem_nil

theorem Covers.enumeration_mem {contents : Contents} {schema : Schema} {fullName : String}
    {enumeration : Enumeration} (covers : contents.Covers schema [] (.enumeration fullName))
    (ordinary : WellKnown.ofFullName? fullName = none)
    (found : schema.enum? fullName = some enumeration) : enumeration ∈ contents.enums :=
  (covers.enumeration fullName enumeration rfl ordinary found).resolve_left List.not_mem_nil

/-- Contents hold everything that smaller ones do. -/
structure Within (small large : Contents) : Prop where
  messages : small.messages ⊆ large.messages
  enums : small.enums ⊆ large.enums
  wellKnown : small.wellKnown ⊆ large.wellKnown

variable {schema : Schema} {met : List String} {small large : Contents} {ref current : TypeRef}

theorem Covers.of_within (within : small.Within large) (covers : small.Covers schema met ref) :
    large.Covers schema met ref where
  wellKnown type known := List.map_subset _ within.wellKnown (covers.wellKnown type known)
  message fullName message same other found :=
    (covers.message fullName message same other found).imp_right (@within.messages message)
  enumeration fullName enumeration same other found :=
    (covers.enumeration fullName enumeration same other found).imp_right
      (@within.enums enumeration)

theorem covers_of_mem (old : ref.fullName ∈ met)
    (ordinary : WellKnown.ofFullName? ref.fullName = none) : small.Covers schema met ref where
  wellKnown type known := by
    rw [ordinary] at known
    cases known
  message fullName _ same _ _ := by
    subst same
    exact Or.inl old
  enumeration fullName _ same _ _ := by
    subst same
    exact Or.inl old

theorem covers_wellKnown {type : WellKnown} (known : WellKnown.ofFullName? ref.fullName = some type)
    (listed : type ∈ large.wellKnown) : large.Covers schema met ref where
  wellKnown other found := by
    obtain rfl := Option.some.inj (known.symm.trans found)
    exact List.mem_map_of_mem listed
  message fullName _ same ordinary _ := by
    subst same
    cases known.symm.trans ordinary
  enumeration fullName _ same ordinary _ := by
    subst same
    cases known.symm.trans ordinary

theorem covers_message {fullName : String} (ordinary : WellKnown.ofFullName? fullName = none)
    (listed : ∀ message, schema.message? fullName = some message → message ∈ large.messages) :
    large.Covers schema met (.message fullName) where
  wellKnown type known := by cases known.symm.trans ordinary
  message
    | _, message, rfl, _, found => Or.inr (listed message found)
  enumeration := nofun

theorem covers_enumeration {fullName : String} (ordinary : WellKnown.ofFullName? fullName = none)
    (listed : ∀ enumeration, schema.enum? fullName = some enumeration →
      enumeration ∈ large.enums) :
    large.Covers schema met (.enumeration fullName) where
  wellKnown type known := by cases known.symm.trans ordinary
  message := nofun
  enumeration
    | _, enumeration, rfl, _, found => Or.inr (listed enumeration found)

/-- A name that is met on the way is that of the mention under way, which is covered by itself, or
it was met before. -/
theorem covers_of_met {refs queue : List TypeRef} (unambiguous : Unambiguous refs)
    (listed : current ∈ refs) (here : large.Covers schema met current)
    (within : small.Within large)
    (others : ∀ ref ∈ queue, ref ∈ refs ∧ small.Covers schema (current.fullName :: met) ref) :
    ∀ ref ∈ current :: queue, ref ∈ refs ∧ large.Covers schema met ref := by
  intro ref member
  by_cases same : ref.fullName = current.fullName
  · have mentioned : ref ∈ refs := by
      rcases List.mem_cons.mp member with rfl | later
      · exact listed
      · exact (others ref later).1
    rw [unambiguous.eq_of_fullName_eq mentioned listed same]
    exact ⟨listed, here⟩
  · obtain ⟨mentioned, covers⟩ := others ref (List.mem_of_ne_of_mem (same ∘ congrArg _) member)
    have grown := covers.of_within within
    have still : ref.fullName ∈ current.fullName :: met → ref.fullName ∈ met :=
      List.mem_of_ne_of_mem same
    refine ⟨mentioned, grown.wellKnown, ?_, ?_⟩
    · rintro fullName message rfl ordinary found
      exact (grown.message fullName message rfl ordinary found).imp_left still
    · rintro fullName enumeration rfl ordinary found
      exact (grown.enumeration fullName enumeration rfl ordinary found).imp_left still

theorem Within.refl (contents : Contents) : contents.Within contents :=
  ⟨List.Subset.refl _, List.Subset.refl _, List.Subset.refl _⟩

theorem within_consWellKnown (type : WellKnown) : small.Within (small.consWellKnown type) :=
  ⟨List.Subset.refl _, List.Subset.refl _, List.subset_cons_self _ _⟩

theorem within_consMessage (message : Message) : small.Within (small.consMessage message) :=
  ⟨List.subset_cons_self _ _, List.Subset.refl _, List.Subset.refl _⟩

theorem within_consEnum (enumeration : Enumeration) : small.Within (small.consEnum enumeration) :=
  ⟨List.Subset.refl _, List.subset_cons_self _ _, List.Subset.refl _⟩

end Contents

namespace Schema

variable {schema : Schema}

open Contents

theorem contentsOf_of_met {met : List String} {ref : TypeRef} {rest : List TypeRef}
    (ordinary : WellKnown.ofFullName? ref.fullName = none) (old : ref.fullName ∈ met) :
    schema.contentsOf met (ref :: rest) = schema.contentsOf met rest := by
  rw [contentsOf, ordinary]
  exact dif_pos old

theorem contentsOf_message_of_found {met : List String} {fullName : String}
    {rest : List TypeRef} {message : Message}
    (ordinary : WellKnown.ofFullName? fullName = none) (new : fullName ∉ met)
    (found : schema.message? fullName = some message) :
    schema.contentsOf met (.message fullName :: rest) =
      (schema.contentsOf (fullName :: met) (rest ++ message.refs)).consMessage message := by
  have ordinaryRef : WellKnown.ofFullName? (TypeRef.message fullName).fullName = none := ordinary
  have newRef : (TypeRef.message fullName).fullName ∉ met := new
  simp only [contentsOf, ordinaryRef, newRef, dite_false]
  split
  · next absent => cases found.symm.trans absent
  · next also =>
    obtain rfl := Option.some.inj (found.symm.trans also)
    rfl

/-- A message that the schema does not have uses its name up all the same. -/
theorem contentsOf_message_of_absent {met : List String} {fullName : String}
    {rest : List TypeRef} (ordinary : WellKnown.ofFullName? fullName = none)
    (new : fullName ∉ met) (absent : schema.message? fullName = none) :
    schema.contentsOf met (.message fullName :: rest) =
      schema.contentsOf (fullName :: met) rest := by
  have ordinaryRef : WellKnown.ofFullName? (TypeRef.message fullName).fullName = none := ordinary
  have newRef : (TypeRef.message fullName).fullName ∉ met := new
  simp only [contentsOf, ordinaryRef, newRef, dite_false]
  split
  · rfl
  · next found => cases absent.symm.trans found

theorem contentsOf_enumeration_of_found {met : List String} {fullName : String}
    {rest : List TypeRef} {enumeration : Enumeration}
    (ordinary : WellKnown.ofFullName? fullName = none) (new : fullName ∉ met)
    (found : schema.enum? fullName = some enumeration) :
    schema.contentsOf met (.enumeration fullName :: rest) =
      (schema.contentsOf (fullName :: met) rest).consEnum enumeration := by
  have ordinaryRef : WellKnown.ofFullName? (TypeRef.enumeration fullName).fullName = none :=
    ordinary
  have newRef : (TypeRef.enumeration fullName).fullName ∉ met := new
  simp only [contentsOf, ordinaryRef, newRef, dite_false, found]

theorem contentsOf_enumeration_of_absent {met : List String} {fullName : String}
    {rest : List TypeRef} (ordinary : WellKnown.ofFullName? fullName = none)
    (new : fullName ∉ met) (absent : schema.enum? fullName = none) :
    schema.contentsOf met (.enumeration fullName :: rest) =
      schema.contentsOf (fullName :: met) rest := by
  have ordinaryRef : WellKnown.ofFullName? (TypeRef.enumeration fullName).fullName = none :=
    ordinary
  have newRef : (TypeRef.enumeration fullName).fullName ∉ met := new
  simp only [contentsOf, ordinaryRef, newRef, dite_false, absent]

/-- The walk covers its queue, and what the messages that it finds mention. -/
theorem contentsOf_covers (unambiguous : Unambiguous schema.mentions) (met : List String)
    {queue : List TypeRef} (listed : queue ⊆ schema.mentions) :
    ∀ ref ∈ queue ++ (schema.contentsOf met queue).messages.flatMap Message.refs,
      ref ∈ schema.mentions ∧ (schema.contentsOf met queue).Covers schema met ref := by
  fun_induction contentsOf schema met queue with
  | case1 => simp
  | case2 met ref rest type known ih =>
    intro other member
    rcases List.mem_cons.mp member with rfl | later
    · exact ⟨listed List.mem_cons_self, covers_wellKnown known List.mem_cons_self⟩
    · obtain ⟨mentioned, covered⟩ := ih (List.cons_subset.mp listed).2 other later
      exact ⟨mentioned, covered.of_within (within_consWellKnown type)⟩
  | case3 met ref rest ordinary old ih =>
    intro other member
    rcases List.mem_cons.mp member with rfl | later
    · exact ⟨listed List.mem_cons_self, covers_of_mem old ordinary⟩
    · exact ih (List.cons_subset.mp listed).2 other later
  | case4 met rest fullName _ others unknown ordinary _ ih =>
    obtain ⟨here, listedRest⟩ := List.cons_subset.mp listed
    refine covers_of_met unambiguous here (covers_enumeration ordinary ?_) (.refl others)
      (ih listedRest)
    intro enumeration found
    cases unknown.symm.trans found
  | case5 met rest fullName _ others enumeration known ordinary _ ih =>
    obtain ⟨here, listedRest⟩ := List.cons_subset.mp listed
    refine covers_of_met unambiguous here (covers_enumeration ordinary ?_)
      (within_consEnum enumeration) (ih listedRest)
    intro other found
    obtain rfl := Option.some.inj (known.symm.trans found)
    exact List.mem_cons_self
  | case6 met rest fullName _ unknown ordinary _ ih =>
    obtain ⟨here, listedRest⟩ := List.cons_subset.mp listed
    refine covers_of_met unambiguous here (covers_message ordinary ?_) (.refl _) (ih listedRest)
    intro message found
    cases unknown.symm.trans found
  | case7 met rest fullName _ message known ordinary _ ih =>
    obtain ⟨here, listedRest⟩ := List.cons_subset.mp listed
    have listedNext : rest ++ message.refs ⊆ schema.mentions :=
      List.append_subset.mpr ⟨listedRest, refs_subset_mentions known⟩
    have next := covers_of_met unambiguous here (covers_message ordinary ?_)
      (within_consMessage message) (ih listedNext)
    · intro other member
      refine next other ?_
      simpa [consMessage] using member
    · intro other found
      obtain rfl := Option.some.inj (known.symm.trans found)
      exact List.mem_cons_self

/-- The messages that the walk finds are those that the schema has under their names. -/
theorem message?_of_mem_contentsOf {met : List String} {queue : List TypeRef} {message : Message}
    (found : message ∈ (schema.contentsOf met queue).messages) :
    schema.message? message.fullName = some message ∧
      WellKnown.ofFullName? message.fullName = none := by
  fun_induction contentsOf schema met queue with
  | case1 => cases found
  | case2 met ref rest type _ ih => exact ih found
  | case3 met ref rest _ _ ih => exact ih found
  | case4 met rest fullName _ _ _ _ _ ih => exact ih found
  | case5 met rest fullName _ _ enumeration _ _ _ ih => exact ih found
  | case6 met rest fullName _ _ _ _ ih => exact ih found
  | case7 met rest fullName _ first known ordinary _ ih =>
    rcases List.mem_cons.mp found with rfl | later
    · have named := fullName_of_message? known
      exact ⟨named ▸ known, named ▸ ordinary⟩
    · exact ih later

/-- What an output file mentions at first hand, and what its messages mention, is covered. -/
theorem contents_covers (unambiguous : Unambiguous schema.mentions) {files : List SchemaFile}
    (known : files ⊆ schema.files) :
    ∀ ref ∈ files.flatMap SchemaFile.declaredRefs ++ files.flatMap SchemaFile.methodRefs ++
        (schema.contents files).messages.flatMap Message.refs,
      (schema.contents files).Covers schema [] ref := by
  let queue := files.flatMap SchemaFile.declaredRefs ++ files.flatMap SchemaFile.methodRefs
  have listed : queue ⊆ schema.mentions := by
    intro ref member
    rcases List.mem_append.mp member with declared | method
    · obtain ⟨file, inFiles, declared⟩ := List.mem_flatMap.mp declared
      exact List.mem_append_left _
        (List.mem_flatMap.mpr ⟨file, known inFiles, List.mem_append_left _ declared⟩)
    · obtain ⟨file, inFiles, method⟩ := List.mem_flatMap.mp method
      exact List.mem_append_right _ (List.mem_flatMap.mpr ⟨file, known inFiles, method⟩)
  intro ref member
  obtain ⟨-, covers⟩ := contentsOf_covers unambiguous [] listed ref member
  refine ⟨fun type isKnown => ?_, covers.message, covers.enumeration⟩
  refine mem_map_ascending_iff.mpr ?_
  obtain ⟨other, met, same⟩ := List.mem_map.mp (covers.wellKnown type isKnown)
  exact List.mem_map.mpr ⟨other, List.mem_flatMap.mpr ⟨other, met, by simp⟩, same⟩

/-- The aliases that the declaration of an alias refers to are there as well. -/
theorem dependencies_mem_contents {files : List SchemaFile} {type : WellKnown}
    (listed : type ∈ (schema.contents files).wellKnown) {dependency : WellKnown}
    (needed : dependency ∈ type.dependencies) :
    dependency.aliasName ∈ (schema.contents files).wellKnown.map WellKnown.aliasName := by
  obtain ⟨origin, met, brought⟩ := List.mem_flatMap.mp (mem_of_mem_ascending listed)
  refine mem_map_ascending_iff.mpr (List.mem_map_of_mem (List.mem_flatMap.mpr ⟨origin, met, ?_⟩))
  rcases List.mem_append.mp brought with indirect | itself
  · rw [WellKnown.dependencies_eq_nil_of_mem indirect] at needed
    cases needed
  · obtain rfl := List.mem_singleton.mp itself
    exact List.mem_append_left _ needed

end Schema

end HttpClientGen
