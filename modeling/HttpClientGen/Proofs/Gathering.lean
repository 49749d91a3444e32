import HttpClientGen.Proofs.Contents
import HttpClientGen.Proofs.QueryLeaves
import HttpClientGen.Proofs.Repeats
import HttpClientGen.Proofs.TypeNames

/-!
# What contents consist of

The contents for some files are what the files mention, each once and in the order in which it is
first mentioned: by the declarations, then by the methods, then by the fields of the messages found
so far. So messages that are fewer fields away come first, and all that can be reached is found. A
name stands for what the schema has under it, and names that the schema does not have lead nowhere.
-/

namespace HttpClientGen

section Fresh

variable {α : Type} [BEq α] {pick : TypeRef → Option α} {key : α → String} {met : List String}
  {ref : TypeRef} {refs : List TypeRef}

/-- What some mentions stand for, each once and in their order, apart from what was met before. -/
def freshOf (pick : TypeRef → Option α) (key : α → String) (met : List String)
    (refs : List TypeRef) : List α :=
  ((refs.filterMap pick).filter fun x => key x ∉ met).eraseDups

theorem freshOf_nil : freshOf pick key [] refs = (refs.filterMap pick).eraseDups := by
  simp [freshOf]

theorem freshOf_cons_of_none (none : pick ref = none) :
    freshOf pick key met (ref :: refs) = freshOf pick key met refs := by
  rw [freshOf, freshOf, List.filterMap_cons_none none]

variable (keyed : ∀ ref x, pick ref = some x → key x = ref.fullName)

include keyed

theorem freshOf_cons_of_met (old : ref.fullName ∈ met) :
    freshOf pick key met (ref :: refs) = freshOf pick key met refs := by
  cases picked : pick ref with
  | none => exact freshOf_cons_of_none picked
  | some x =>
    have known : key x ∈ met := keyed ref x picked ▸ old
    rw [freshOf, freshOf, List.filterMap_cons_some picked, List.filter_cons_of_neg (by simpa)]

/-- A mention whose name is new and used for nothing else comes first, if it stands for anything. -/
theorem freshOf_cons_of_new [LawfulBEq α] (new : ref.fullName ∉ met)
    (only : ∀ other ∈ refs, other.fullName = ref.fullName → other = ref) :
    freshOf pick key met (ref :: refs) =
      (pick ref).toList ++ freshOf pick key (ref.fullName :: met) refs := by
  have named : ∀ x ∈ refs.filterMap pick, key x = ref.fullName → pick ref = some x := by
    intro x listed same
    obtain ⟨other, mentioned, picked⟩ := List.mem_filterMap.mp listed
    rw [← only other mentioned ((keyed other x picked).symm.trans same)]
    exact picked
  cases picked : pick ref with
  | none =>
    rw [freshOf_cons_of_none picked, Option.toList_none, List.nil_append, freshOf, freshOf]
    congr 1
    refine List.filter_congr fun x listed => ?_
    have differ : key x ≠ ref.fullName := by
      intro same
      cases picked.symm.trans (named x listed same)
    simp [differ]
  | some x =>
    have fresh : key x ∉ met := keyed ref x picked ▸ new
    rw [freshOf, List.filterMap_cons_some picked, List.filter_cons_of_pos (by simpa),
      List.eraseDups_cons, List.filter_filter, Option.toList_some, List.singleton_append, freshOf]
    congr 2
    refine List.filter_congr fun y listed => ?_
    have same : key y = ref.fullName ↔ y = x := by
      constructor
      · intro same
        exact (Option.some.inj (picked.symm.trans (named y listed same))).symm
      · rintro rfl
        exact keyed ref y picked
    rw [Bool.eq_iff_iff]
    simp [same]

end Fresh

def FieldKind.enum? : FieldKind → Option String
  | enumeration fullName => some fullName
  | _ => none

/-- The name under which a mention asks for a message. -/
def TypeRef.messageName? : TypeRef → Option String
  | message fullName => some fullName
  | enumeration _ => none

def TypeRef.enumName? : TypeRef → Option String
  | message _ => none
  | enumeration fullName => some fullName

theorem TypeRef.fullName_of_messageName? {ref : TypeRef} {name : String}
    (named : ref.messageName? = some name) : ref.fullName = name := by
  cases ref with
  | message fullName => exact Option.some.inj named
  | enumeration fullName => cases named

theorem TypeRef.fullName_of_enumName? {ref : TypeRef} {name : String}
    (named : ref.enumName? = some name) : ref.fullName = name := by
  cases ref with
  | message fullName => cases named
  | enumeration fullName => exact Option.some.inj named

theorem TypeRef.mem_map_fullName_iff {refs : List TypeRef} {name : String} :
    name ∈ refs.map TypeRef.fullName ↔
      name ∈ refs.filterMap TypeRef.messageName? ++ refs.filterMap TypeRef.enumName? := by
  rw [List.mem_append, List.mem_filterMap, List.mem_filterMap, List.mem_map]
  constructor
  · rintro ⟨ref, listed, rfl⟩
    cases ref with
    | message fullName => exact .inl ⟨_, listed, rfl⟩
    | enumeration fullName => exact .inr ⟨_, listed, rfl⟩
  · rintro (⟨ref, listed, named⟩ | ⟨ref, listed, named⟩)
    · exact ⟨ref, listed, fullName_of_messageName? named⟩
    · exact ⟨ref, listed, fullName_of_enumName? named⟩

/-- What some files mention at first hand. The walk begins with these. -/
def firstRefs (files : List SchemaFile) : List TypeRef :=
  files.flatMap SchemaFile.declaredRefs ++ files.flatMap SchemaFile.methodRefs

/-- The messages that some files declare, then those that their methods take and give, then those
that the fields of some messages refer to. -/
def mentionedMessages (files : List SchemaFile) (messages : List Message) : List String :=
  (files.flatMap fun file => file.messages.map (·.fullName)) ++
    (files.flatMap fun file => file.services.flatMap fun service =>
      service.methods.flatMap fun method => [method.input, method.output]) ++
    messages.flatMap fun message => message.fields.filterMap (·.kind.message?)

/-- The enumerations that some files declare, then those that the fields of some messages refer
to. -/
def mentionedEnums (files : List SchemaFile) (messages : List Message) : List String :=
  (files.flatMap fun file => file.enums.map (·.fullName)) ++
    messages.flatMap fun message => message.fields.filterMap (·.kind.enum?)

theorem Message.filterMap_messageName?_refs (message : Message) :
    message.refs.filterMap TypeRef.messageName? = message.targets := by
  rw [refs, List.filterMap_filterMap, targets]
  refine congrArg (List.filterMap · message.fields) (funext fun field => ?_)
  cases field.kind <;> rfl

theorem filterMap_messageName? (files : List SchemaFile) (messages : List Message) :
    (firstRefs files ++ messages.flatMap Message.refs).filterMap TypeRef.messageName? =
      mentionedMessages files messages := by
  simp [firstRefs, mentionedMessages, SchemaFile.declaredRefs, SchemaFile.methodRefs,
    List.filterMap_flatMap, Function.comp_def, TypeRef.messageName?,
    Message.filterMap_messageName?_refs, Message.targets]

theorem filterMap_enumName? (files : List SchemaFile) (messages : List Message) :
    (firstRefs files ++ messages.flatMap Message.refs).filterMap TypeRef.enumName? =
      mentionedEnums files messages := by
  have kind (kind : FieldKind) : kind.ref?.bind TypeRef.enumName? = kind.enum? := by
    cases kind <;> rfl
  simp [firstRefs, mentionedEnums, SchemaFile.declaredRefs, SchemaFile.methodRefs, Message.refs,
    List.filterMap_flatMap, List.filterMap_filterMap, Function.comp_def, TypeRef.enumName?, kind]

namespace Schema

def ordinaryMessage? (schema : Schema) (fullName : String) : Option Message :=
  if isWellKnown fullName then none else schema.message? fullName

def ordinaryEnum? (schema : Schema) (fullName : String) : Option Enumeration :=
  if isWellKnown fullName then none else schema.enum? fullName

variable {schema : Schema} {name : String}

theorem ordinaryMessage?_eq_some_iff {message : Message} :
    schema.ordinaryMessage? name = some message ↔
      isWellKnown name = false ∧ schema.message? name = some message := by
  simp [ordinaryMessage?]

theorem ordinaryEnum?_eq_some_iff {enumeration : Enumeration} :
    schema.ordinaryEnum? name = some enumeration ↔
      isWellKnown name = false ∧ schema.enum? name = some enumeration := by
  simp [ordinaryEnum?]

def messageOf? (schema : Schema) (ref : TypeRef) : Option Message :=
  ref.messageName?.bind schema.ordinaryMessage?

def enumOf? (schema : Schema) (ref : TypeRef) : Option Enumeration :=
  ref.enumName?.bind schema.ordinaryEnum?

theorem fullName_of_messageOf? (ref : TypeRef) (message : Message)
    (leads : schema.messageOf? ref = some message) : message.fullName = ref.fullName := by
  obtain ⟨name, named, found⟩ := Option.bind_eq_some_iff.mp leads
  rw [TypeRef.fullName_of_messageName? named]
  exact fullName_of_message? (ordinaryMessage?_eq_some_iff.mp found).2

theorem fullName_of_enumOf? (ref : TypeRef) (enumeration : Enumeration)
    (leads : schema.enumOf? ref = some enumeration) : enumeration.fullName = ref.fullName := by
  obtain ⟨name, named, found⟩ := Option.bind_eq_some_iff.mp leads
  rw [TypeRef.fullName_of_enumName? named]
  exact fullName_of_enum? (ordinaryEnum?_eq_some_iff.mp found).2

theorem messageOf?_of_isWellKnown {ref : TypeRef} (known : isWellKnown ref.fullName = true) :
    schema.messageOf? ref = none := by
  cases ref with
  | message fullName => exact if_pos known
  | enumeration fullName => rfl

theorem enumOf?_of_isWellKnown {ref : TypeRef} (known : isWellKnown ref.fullName = true) :
    schema.enumOf? ref = none := by
  cases ref with
  | message fullName => rfl
  | enumeration fullName => exact if_pos known

theorem messageOf?_message
    (ordinary : WellKnown.ofFullName? (TypeRef.message name).fullName = none) :
    schema.messageOf? (.message name) = schema.message? name :=
  if_neg (Bool.eq_false_iff.mp (isWellKnown_eq_false_iff.mpr ordinary))

theorem enumOf?_enumeration
    (ordinary : WellKnown.ofFullName? (TypeRef.enumeration name).fullName = none) :
    schema.enumOf? (.enumeration name) = schema.enum? name :=
  if_neg (Bool.eq_false_iff.mp (isWellKnown_eq_false_iff.mpr ordinary))

end Schema

namespace Contents

/-- The contents list what some mentions lead to, apart from the names that were met before. -/
structure Lists (contents : Contents) (schema : Schema) (met : List String)
    (refs : List TypeRef) : Prop where
  messages : contents.messages = freshOf schema.messageOf? Message.fullName met refs
  enums : contents.enums = freshOf schema.enumOf? Enumeration.fullName met refs
  wellKnown : contents.wellKnown = (refs.map TypeRef.fullName).filterMap WellKnown.ofFullName?

namespace Lists

variable {contents : Contents} {schema : Schema} {met : List String} {ref : TypeRef}
  {refs : List TypeRef}

theorem cons_wellKnown {type : WellKnown} (lists : contents.Lists schema met refs)
    (known : WellKnown.ofFullName? ref.fullName = some type) :
    (contents.consWellKnown type).Lists schema met (ref :: refs) := by
  have isKnown : isWellKnown ref.fullName = true := by
    rw [← Bool.not_eq_false, isWellKnown_eq_false_iff, known]
    nofun
  refine ⟨?_, ?_, ?_⟩
  · rw [freshOf_cons_of_none (Schema.messageOf?_of_isWellKnown isKnown)]
    exact lists.messages
  · rw [freshOf_cons_of_none (Schema.enumOf?_of_isWellKnown isKnown)]
    exact lists.enums
  · rw [List.map_cons, List.filterMap_cons_some known, ← lists.wellKnown]
    rfl

theorem cons_met (lists : contents.Lists schema met refs)
    (ordinary : WellKnown.ofFullName? ref.fullName = none) (old : ref.fullName ∈ met) :
    contents.Lists schema met (ref :: refs) where
  messages := by rw [freshOf_cons_of_met Schema.fullName_of_messageOf? old, lists.messages]
  enums := by rw [freshOf_cons_of_met Schema.fullName_of_enumOf? old, lists.enums]
  wellKnown := by rw [List.map_cons, List.filterMap_cons_none ordinary, lists.wellKnown]

/-- A mention with a new name puts what it leads to in front. -/
theorem cons_new (lists : contents.Lists schema (ref.fullName :: met) refs)
    (ordinary : WellKnown.ofFullName? ref.fullName = none) (new : ref.fullName ∉ met)
    (only : ∀ other ∈ refs, other.fullName = ref.fullName → other = ref) :
    Lists { messages := (schema.messageOf? ref).toList ++ contents.messages
            enums := (schema.enumOf? ref).toList ++ contents.enums
            wellKnown := contents.wellKnown } schema met (ref :: refs) where
  messages := by rw [freshOf_cons_of_new Schema.fullName_of_messageOf? new only, lists.messages]
  enums := by rw [freshOf_cons_of_new Schema.fullName_of_enumOf? new only, lists.enums]
  wellKnown := by rw [List.map_cons, List.filterMap_cons_none ordinary, lists.wellKnown]

end Lists

end Contents

namespace Schema

variable {schema : Schema}

/-- The walk lists what its queue leads to and what the messages that it finds lead to. -/
theorem contentsOf_lists {refs : List TypeRef} (unambiguous : Unambiguous refs)
    (mentioned : schema.mentions ⊆ refs) (met : List String) {queue : List TypeRef}
    (listed : queue ⊆ refs) :
    (schema.contentsOf met queue).Lists schema met
      (queue ++ (schema.contentsOf met queue).messages.flatMap Message.refs) := by
  -- all that the walk mentions is among `refs`, so a name is used for one thing only
  have within (met : List String) {queue : List TypeRef} (listed : queue ⊆ refs) :
      queue ++ (schema.contentsOf met queue).messages.flatMap Message.refs ⊆ refs := by
    refine List.append_subset.mpr ⟨listed, fun ref member => ?_⟩
    obtain ⟨message, found, refers⟩ := List.mem_flatMap.mp member
    exact mentioned (refs_subset_mentions (message?_of_mem_contentsOf found).1 refers)
  have only {ref : TypeRef} {others : List TypeRef} (listed : ref ∈ refs) (within : others ⊆ refs) :
      ∀ other ∈ others, other.fullName = ref.fullName → other = ref :=
    fun _ member same => unambiguous.eq_of_fullName_eq (within member) listed same
  fun_induction contentsOf schema met queue with
  | case1 => exact ⟨rfl, rfl, rfl⟩
  | case2 met ref rest type known ih =>
    exact (ih (List.cons_subset.mp listed).2).cons_wellKnown known
  | case3 met ref rest ordinary old ih =>
    exact (ih (List.cons_subset.mp listed).2).cons_met ordinary old
  | case4 met rest fullName new others unknown ordinary _ ih =>
    obtain ⟨here, listedRest⟩ := List.cons_subset.mp listed
    have lists := (ih listedRest).cons_new ordinary new (only here (within _ listedRest))
    rwa [enumOf?_enumeration ordinary, unknown] at lists
  | case5 met rest fullName new others enumeration known ordinary _ ih =>
    obtain ⟨here, listedRest⟩ := List.cons_subset.mp listed
    have lists := (ih listedRest).cons_new ordinary new (only here (within _ listedRest))
    rwa [enumOf?_enumeration ordinary, known] at lists
  | case6 met rest fullName new unknown ordinary _ ih =>
    obtain ⟨here, listedRest⟩ := List.cons_subset.mp listed
    have lists := (ih listedRest).cons_new ordinary new (only here (within _ listedRest))
    rwa [messageOf?_message ordinary, unknown] at lists
  | case7 met rest fullName new message known ordinary _ ih =>
    obtain ⟨here, listedRest⟩ := List.cons_subset.mp listed
    have listedNext : rest ++ message.refs ⊆ refs :=
      List.append_subset.mpr ⟨listedRest, List.Subset.trans (refs_subset_mentions known) mentioned⟩
    have lists := (ih listedNext).cons_new ordinary new (only here (within _ listedNext))
    rw [messageOf?_message ordinary, known, List.append_assoc] at lists
    exact lists

/-- The messages that have to be declared for some files, by the number of fields that lead to
them: the messages of the files, those that their methods take and give, and closed under the
messages that fields refer to. -/
inductive Gathers (schema : Schema) (files : List SchemaFile) : Nat → Message → Prop
  | declared {file : SchemaFile} {declaration message : Message} (listed : file ∈ files)
      (declares : declaration ∈ file.messages)
      (found : schema.ordinaryMessage? declaration.fullName = some message) :
      Gathers schema files 0 message
  | used {file : SchemaFile} {service : Service} {method : Method} {name : String}
      {message : Message} (listed : file ∈ files) (serves : service ∈ file.services)
      (offers : method ∈ service.methods) (uses : name = method.input ∨ name = method.output)
      (found : schema.ordinaryMessage? name = some message) : Gathers schema files 0 message
  | field {n : Nat} {holder message : Message} {field : Field} {name : String}
      (gathered : Gathers schema files n holder) (held : field ∈ holder.fields)
      (kind : field.kind = .message name) (found : schema.ordinaryMessage? name = some message) :
      Gathers schema files (n + 1) message

variable {files : List SchemaFile} {message : Message}

theorem gathers_zero_iff :
    schema.Gathers files 0 message ↔
      message ∈ (mentionedMessages files []).filterMap schema.ordinaryMessage? := by
  simp only [mentionedMessages, List.flatMap_nil, List.append_nil, List.mem_filterMap,
    List.mem_append, List.mem_flatMap, List.mem_map, List.mem_pair]
  constructor
  · intro gathers
    cases gathers with
    | declared listed declares found => exact ⟨_, .inl ⟨_, listed, _, declares, rfl⟩, found⟩
    | used listed serves offers uses found =>
      exact ⟨_, .inr ⟨_, listed, _, serves, _, offers, uses⟩, found⟩
  · rintro ⟨_, ⟨file, listed, _, declares, rfl⟩ | ⟨file, listed, _, serves, _, offers, uses⟩, found⟩
    · exact .declared listed declares found
    · exact .used listed serves offers uses found

theorem gathers_succ_iff {n : Nat} :
    schema.Gathers files (n + 1) message ↔
      ∃ holder, schema.Gathers files n holder ∧
        message ∈ holder.targets.filterMap schema.ordinaryMessage? := by
  simp only [List.mem_filterMap, Message.mem_targets_iff]
  constructor
  · intro gathers
    cases gathers with
    | field gathered held kind found => exact ⟨_, gathered, _, ⟨_, held, kind⟩, found⟩
  · rintro ⟨holder, gathered, name, ⟨field, held, kind⟩, found⟩
    exact .field gathered held kind found

/-- A list of messages is in the order of the walk: those that the files mention, then those that
the listed messages refer to, each where it is mentioned first. -/
def IsWalk (schema : Schema) (files : List SchemaFile) (messages : List Message) : Prop :=
  messages = ((mentionedMessages files messages).filterMap schema.ordinaryMessage?).eraseDups

variable {messages : List Message}

theorem filterMap_mentionedMessages_append (front back : List Message) :
    (mentionedMessages files (front ++ back)).filterMap schema.ordinaryMessage? =
      (mentionedMessages files front).filterMap schema.ordinaryMessage? ++
        (back.flatMap Message.targets).filterMap schema.ordinaryMessage? := by
  rw [← List.filterMap_append, mentionedMessages, List.flatMap_append, ← List.append_assoc]
  rfl

theorem mem_filterMap_mentionedMessages_iff :
    message ∈ (mentionedMessages files messages).filterMap schema.ordinaryMessage? ↔
      schema.Gathers files 0 message ∨ ∃ holder ∈ messages,
        message ∈ holder.targets.filterMap schema.ordinaryMessage? := by
  rw [← List.nil_append messages, filterMap_mentionedMessages_append, List.mem_append,
    gathers_zero_iff, List.filterMap_flatMap, List.mem_flatMap, List.nil_append]

theorem IsWalk.mem_of_gathers (walk : schema.IsWalk files messages) {n : Nat}
    (gathers : schema.Gathers files n message) : message ∈ messages := by
  rw [walk, List.mem_eraseDups, mem_filterMap_mentionedMessages_iff]
  induction n generalizing message with
  | zero => exact .inl gathers
  | succ n ih =>
    obtain ⟨holder, gathered, refers⟩ := gathers_succ_iff.mp gathers
    refine .inr ⟨holder, ?_, refers⟩
    rw [walk, List.mem_eraseDups, mem_filterMap_mentionedMessages_iff]
    exact ih gathered

/-- The messages that fewer than `n` fields lead to stand at the front of the walk. -/
theorem IsWalk.exists_mem_take_iff (walk : schema.IsWalk files messages) (n : Nat) :
    ∃ count, ∀ message, message ∈ messages.take count ↔
      ∃ k < n, schema.Gathers files k message := by
  induction n with
  | zero => exact ⟨0, by simp⟩
  | succ n ih =>
    obtain ⟨count, level⟩ := ih
    let next := (mentionedMessages files (messages.take count)).filterMap schema.ordinaryMessage?
    refine ⟨next.eraseDups.length, fun message => ?_⟩
    -- what is mentioned later only adds to the end, so the next level is a front as well
    have front : messages.take next.eraseDups.length = next.eraseDups := by
      rw [walk]
      nth_rewrite 1 [← List.take_append_drop count messages]
      rw [filterMap_mentionedMessages_append, List.eraseDups_append, List.take_left]
    rw [front, List.mem_eraseDups, mem_filterMap_mentionedMessages_iff]
    constructor
    · rintro (first | ⟨holder, listed, refers⟩)
      · exact ⟨0, n.succ_pos, first⟩
      · obtain ⟨k, less, gathered⟩ := (level holder).mp listed
        exact ⟨k + 1, Nat.succ_lt_succ less, gathers_succ_iff.mpr ⟨holder, gathered, refers⟩⟩
    · rintro ⟨k, less, gathers⟩
      cases k with
      | zero => exact .inl gathers
      | succ k =>
        obtain ⟨holder, gathered, refers⟩ := gathers_succ_iff.mp gathers
        exact .inr ⟨holder, (level holder).mpr ⟨k, Nat.lt_of_succ_lt_succ less, gathered⟩, refers⟩

theorem IsWalk.nodup (walk : schema.IsWalk files messages) : messages.Nodup := by
  rw [walk]
  exact nodup_eraseDups _

/-- The walk goes breadth-first. -/
theorem IsWalk.pairwise (walk : schema.IsWalk files messages) :
    messages.Pairwise fun earlier later =>
      ∀ n, schema.Gathers files n later → ∃ k ≤ n, schema.Gathers files k earlier := by
  rw [List.pairwise_iff_getElem]
  intro i j _ inRange less n gathers
  obtain ⟨count, level⟩ := walk.exists_mem_take_iff (n + 1)
  obtain ⟨position, before, same⟩ :=
    List.mem_take_iff_getElem.mp ((level _).mpr ⟨n, n.lt_succ_self, gathers⟩)
  obtain rfl : position = j := (walk.nodup.getElem_inj_iff).mp same
  have early : i < min count messages.length := less.trans before
  obtain ⟨k, most, gathered⟩ := (level _).mp (List.mem_take_iff_getElem.mpr ⟨i, early, rfl⟩)
  exact ⟨k, Nat.le_of_lt_succ most, gathered⟩

end Schema

/-- The declaration of a well-known type refers to another one, directly or through others, or the
types are the same. -/
def WellKnown.Needs : WellKnown → WellKnown → Prop :=
  Relation.ReflTransGen fun type dependency => dependency ∈ type.dependencies

theorem WellKnown.mem_dependencies_append_iff_needs {type dependency : WellKnown} :
    dependency ∈ type.dependencies ++ [type] ↔ type.Needs dependency := by
  rw [List.mem_append, List.mem_singleton]
  constructor
  · rintro (needed | rfl)
    · exact .single needed
    · exact .refl
  · intro needs
    cases needs.cases_tail with
    | inl same => exact .inr same
    | inr last =>
      obtain ⟨between, needs, needed⟩ := last
      refine .inl ?_
      induction needs with
      | refl => exact needed
      | tail _ before _ =>
        rw [WellKnown.dependencies_eq_nil_of_mem before] at needed
        cases needed

/-- A well-known type is mentioned behind some files and messages, or one that needs it is. -/
def MentionsWellKnown (files : List SchemaFile) (messages : List Message)
    (type : WellKnown) : Prop :=
  ∃ name ∈ mentionedMessages files messages ++ mentionedEnums files messages,
    ∃ origin, WellKnown.ofFullName? name = some origin ∧ origin.Needs type

theorem mentionsWellKnown_iff {files : List SchemaFile} {messages : List Message}
    {type : WellKnown} :
    MentionsWellKnown files messages type ↔
      type ∈ (((firstRefs files ++ messages.flatMap Message.refs).map
        TypeRef.fullName).filterMap WellKnown.ofFullName?).flatMap
          fun type => type.dependencies ++ [type] := by
  rw [MentionsWellKnown, ← filterMap_messageName?, ← filterMap_enumName?]
  simp only [List.mem_flatMap, List.mem_filterMap, TypeRef.mem_map_fullName_iff,
    WellKnown.mem_dependencies_append_iff_needs]
  constructor
  · rintro ⟨name, mentioned, origin, known, needs⟩
    exact ⟨origin, ⟨name, mentioned, known⟩, needs⟩
  · rintro ⟨origin, ⟨name, mentioned, known⟩, needs⟩
    exact ⟨name, mentioned, origin, known, needs⟩

/-- The contents are exactly what has to be declared for some files, in the order of the walk. -/
structure Contents.IsGathered (contents : Contents) (schema : Schema) (files : List SchemaFile) :
    Prop where
  messages : ∀ message, message ∈ contents.messages ↔ ∃ n, schema.Gathers files n message
  messagesOnce : (contents.messages.map Message.fullName).Nodup
  walk : schema.IsWalk files contents.messages
  bounded : contents.messages.length ≤ (schema.files.flatMap (·.messages)).length
  breadthFirst : contents.messages.Pairwise fun earlier later =>
    ∀ n, schema.Gathers files n later → ∃ k ≤ n, schema.Gathers files k earlier
  enums : ∀ enumeration, enumeration ∈ contents.enums ↔
    ∃ name ∈ mentionedEnums files contents.messages, schema.ordinaryEnum? name = some enumeration
  enumsOnce : (contents.enums.map Enumeration.fullName).Nodup
  types : ∀ type ∈ contents.wellKnown, MentionsWellKnown files contents.messages type
  aliases : ∀ type, MentionsWellKnown files contents.messages type →
    type.aliasName ∈ contents.wellKnown.map WellKnown.aliasName
  ascending : contents.wellKnown.Pairwise (·.aliasName < ·.aliasName)

namespace Schema

variable {schema : Schema} {files : List SchemaFile}

theorem filterMap_messageOf? (refs : List TypeRef) :
    refs.filterMap schema.messageOf? =
      (refs.filterMap TypeRef.messageName?).filterMap schema.ordinaryMessage? :=
  List.filterMap_filterMap.symm

theorem filterMap_enumOf? (refs : List TypeRef) :
    refs.filterMap schema.enumOf? =
      (refs.filterMap TypeRef.enumName?).filterMap schema.ordinaryEnum? :=
  List.filterMap_filterMap.symm

theorem mem_filterMap_firstRefs_iff {message : Message} :
    message ∈ (firstRefs files).filterMap schema.messageOf? ↔ schema.Gathers files 0 message := by
  rw [gathers_zero_iff, ← filterMap_messageName?, ← filterMap_messageOf?, List.flatMap_nil,
    List.append_nil]

/-- The walk finds nothing else, if its queue leads to nothing else. -/
theorem gathers_of_mem_contentsOf {met : List String} {queue : List TypeRef}
    (sound : ∀ message ∈ queue.filterMap schema.messageOf?,
      ∃ n, schema.Gathers files n message) :
    ∀ message ∈ (schema.contentsOf met queue).messages, ∃ n, schema.Gathers files n message := by
  have later {ref : TypeRef} {rest : List TypeRef}
      (sound : ∀ message ∈ (ref :: rest).filterMap schema.messageOf?,
        ∃ n, schema.Gathers files n message) :
      ∀ message ∈ rest.filterMap schema.messageOf?, ∃ n, schema.Gathers files n message :=
    fun message leads => sound message (((List.sublist_cons_self _ _).filterMap _).subset leads)
  fun_induction contentsOf schema met queue with
  | case1 => exact List.forall_mem_nil _
  | case2 met ref rest type _ ih => exact ih (later sound)
  | case3 met ref rest _ _ ih => exact ih (later sound)
  | case4 met rest fullName _ _ _ _ _ ih => exact ih (later sound)
  | case5 met rest fullName _ _ enumeration _ _ _ ih => exact ih (later sound)
  | case6 met rest fullName _ _ _ _ ih => exact ih (later sound)
  | case7 met rest fullName _ message known ordinary _ ih =>
    have leads : schema.messageOf? (.message fullName) = some message := by
      rw [messageOf?_message ordinary, known]
    obtain ⟨n, gathers⟩ := sound message (List.mem_filterMap.mpr ⟨_, List.mem_cons_self, leads⟩)
    refine List.forall_mem_cons.mpr ⟨⟨n, gathers⟩, ih fun inner reached => ?_⟩
    rw [List.filterMap_append, List.mem_append] at reached
    rcases reached with before | held
    · exact later sound inner before
    · rw [filterMap_messageOf?, Message.filterMap_messageName?_refs] at held
      exact ⟨n + 1, gathers_succ_iff.mpr ⟨message, gathers, held⟩⟩

section Contents

variable (unambiguous : Unambiguous (schema.mentions ++ firstRefs files))

include unambiguous

theorem contents_lists :
    (schema.contentsOf [] (firstRefs files)).Lists schema []
      (firstRefs files ++ (schema.contents files).messages.flatMap Message.refs) :=
  contentsOf_lists unambiguous (List.subset_append_left _ _) []
    (List.subset_append_right schema.mentions (firstRefs files))

theorem isWalk_contents : schema.IsWalk files (schema.contents files).messages := by
  have messages : (schema.contents files).messages = _ := (contents_lists unambiguous).messages
  rwa [freshOf_nil, filterMap_messageOf?, filterMap_messageName?] at messages

theorem enums_contents :
    (schema.contents files).enums =
      ((mentionedEnums files (schema.contents files).messages).filterMap
        schema.ordinaryEnum?).eraseDups := by
  have enums : (schema.contents files).enums = _ := (contents_lists unambiguous).enums
  rwa [freshOf_nil, filterMap_enumOf?, filterMap_enumName?] at enums

/-- The aliases are put in order from the types that are mentioned and those that these need. -/
theorem mentionsWellKnown_contents_iff {type : WellKnown} :
    MentionsWellKnown files (schema.contents files).messages type ↔
      type ∈ (schema.contentsOf [] (firstRefs files)).wellKnown.flatMap
        fun type => type.dependencies ++ [type] := by
  rw [mentionsWellKnown_iff, (contents_lists unambiguous).wellKnown]

end Contents

/-- The contents for some files are those messages and enumerations that the files need and the
schema has, and the aliases for the well-known types among what they need. Each of them is there
once. -/
theorem contents_isGathered (schema : Schema) (files : List SchemaFile)
    (unambiguous : Unambiguous (schema.mentions ++ firstRefs files)) :
    (schema.contents files).IsGathered schema files := by
  have walk := isWalk_contents unambiguous
  have enums := enums_contents unambiguous
  constructor
  case messages =>
    refine fun message => ⟨gathers_of_mem_contentsOf (fun first leads => ⟨0, ?_⟩) message, ?_⟩
    · exact mem_filterMap_firstRefs_iff.mp leads
    · rintro ⟨n, gathers⟩
      exact walk.mem_of_gathers gathers
  case messagesOnce =>
    refine (nodup_map_iff_of_found schema.message? fun message found => ?_).mpr walk.nodup
    exact (message?_of_mem_contentsOf found).1
  case walk => exact walk
  case bounded =>
    refine (List.subperm_of_subset walk.nodup fun message found => ?_).length_le
    exact List.mem_flatMap.mpr (mem_files_of_message? (message?_of_mem_contentsOf found).1)
  case breadthFirst => exact walk.pairwise
  case enums =>
    intro enumeration
    rw [enums, List.mem_eraseDups, List.mem_filterMap]
  case enumsOnce =>
    have distinct : (schema.contents files).enums.Nodup := by
      rw [enums]
      exact nodup_eraseDups _
    refine (nodup_map_iff_of_found schema.enum? fun enumeration found => ?_).mpr distinct
    exact (enum?_of_mem_contentsOf found).1
  case types =>
    intro type listed
    exact (mentionsWellKnown_contents_iff unambiguous).mpr (mem_of_mem_ascending listed)
  case aliases =>
    intro type mentioned
    refine mem_map_ascending_iff.mpr (List.mem_map_of_mem ?_)
    exact (mentionsWellKnown_contents_iff unambiguous).mp mentioned
  case ascending => exact pairwise_ascending _

theorem contents_driveSchema_isGathered :
    Unambiguous (driveSchema.mentions ++ firstRefs (driveSchema.files ++ driveSchema.files)) ∧
      (driveSchema.contents (driveSchema.files ++ driveSchema.files)).IsGathered driveSchema
        (driveSchema.files ++ driveSchema.files) :=
  ⟨by decide, contents_isGathered _ _ (by decide)⟩

end Schema

end HttpClientGen
